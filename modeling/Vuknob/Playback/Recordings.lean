import Vuknob.Playback.Recorder

/-!
# What is in a recording

While a file is open, what is in it behind the header and what the thread has still to write are all
that has been accepted for it, in order. So a file that has been closed holds just that, with its
length in the header.
-/

namespace Vuknob

open Library

namespace WriterPool

/-- A writer is found that is not in flight, or there is no memory, unless the last one is to be
taken. -/
theorem Owned.getAsyncRiffWriter {s : WriterPool} {unused pending : List Nat}
    (h : s.Owned unused pending) (enough : Bool) (hspare : s.spare ≠ 1) :
    ∃ o t, s.getAsyncRiffWriter enough = some (o, t) ∧ t.inFlight = s.inFlight ∧
      t.contents = s.contents ∧ (o = none → ∃ unused' pending', t.Owned unused' pending') ∧
      ∀ rv, o = some rv → s.inFlight rv = false ∧ ∀ contents, ∃ unused' pending',
        ({ t with contents := Function.update t.contents rv contents }.queueAsyncWriter rv).Owned
          unused' pending' := by
  obtain ⟨s₁, hs₁, hkept₁, h₁⟩ := h.poll
  obtain ⟨unused₂, h₂, hkept₂, hunused₂⟩ := h₁.refill enough
  have hinFlight : (s₁.refillUnused enough).inFlight = s.inFlight :=
    hkept₂.inFlight.trans hkept₁.inFlight
  have hcontents : (s₁.refillUnused enough).contents = s.contents :=
    hkept₂.contents.trans hkept₁.contents
  rw [WriterPool.getAsyncRiffWriter, hs₁, Option.bind_some]
  rcases unused₂ with _ | ⟨rv, _ | ⟨second, rest⟩⟩
  · have hhead : (s₁.refillUnused enough).unused = none := h₂.unused.head
    refine ⟨none, _, ?_, hinFlight, hcontents, fun _ ↦ ⟨_, _, h₂⟩, fun rv hrv ↦ by cases hrv⟩
    simp only [WriterPool.takeUnused, hhead]
  · -- There was no other writer before.
    exfalso
    rcases hunused₂ with hsame | ⟨-, hlength⟩
    · exact hspare (h.length_polled.symm.trans (congrArg List.length hsame.symm))
    · cases hlength
  · obtain ⟨t, ht, hkept, -⟩ := h₂.takeUnused ⟨0, []⟩
    refine ⟨_, t, ht, hkept.inFlight.trans hinFlight, hkept.contents.trans hcontents,
      (fun hnone ↦ by cases hnone), fun rv' hrv ↦ ?_⟩
    obtain rfl := Option.some.inj hrv
    refine ⟨?_, fun contents ↦ ?_⟩
    · rw [← hinFlight]
      exact h₂.idle rv (h₂.notMem List.mem_cons_self)
    · obtain ⟨t', ht', -, howned⟩ := h₂.takeUnused contents
      obtain rfl : t = t' := (Prod.mk.inj (Option.some.inj (ht.symm.trans ht'))).2
      exact ⟨_, _, howned⟩

end WriterPool

/-- A file with the header for its length, and the data. -/
def waveFile (rate : UInt32) (data : List UInt8) : List UInt8 :=
  (RiffWaveHeader.mk rate (UInt32.ofNat data.length + 36) (UInt32.ofNat data.length)).bytes ++ data

theorem RiffWaveHeader.length_bytes (h : RiffWaveHeader) : h.bytes.length = 44 := rfl

namespace Recorder

/-- The data that the thread has still to write. -/
def onItsWay (s : Recorder) : List UInt8 :=
  s.queue.flatMap fun arw ↦ (s.riff.arwc.contents arw).data

/-- All that has been accepted for the open file is in it or on its way to it. -/
structure Records (s : Recorder) (header written : List UInt8) : Prop where
  length_eq : header.length = 44
  holds : s.files.Holds s.riff.fd s.fileName (header ++ written)
  recorded : s.recorded = written ++ s.onItsWay
  destination : ∀ arw ∈ s.queue, (s.riff.arwc.contents arw).fd = s.riff.fd
  replaced : s.recordings s.fileName = none
  count : s.riff.writtenToRiff = UInt32.ofNat s.recorded.length

/-- What holds of the sink in every period. -/
structure Sound (rate : UInt32) (s : Recorder) : Prop where
  owned : ∃ unused pending, s.riff.arwc.Owned unused pending
  nodup : s.queue.Nodup
  inFlight : ∀ arw, s.riff.arwc.inFlight arw = true ↔ arw ∈ s.queue
  closed : s.riff.fd = -1 → s.queue = []
  opened : s.riff.fd ≠ -1 → ∃ header written, s.Records header written
  rate_eq : s.riff.header.rate = rate
  kept : ∀ name data, s.recordings name = some data → s.files.content name = waveFile rate data

/-- A period leaves a writer beside the one that it takes, and recording is switched on only when no
file is open: it was not switched off and on again while the sink was playing. -/
def Permits (s : Recorder) : RecorderCommand → Prop
  | .fillSink isPlaying isRecording _ _ _ _ => s.riff.arwc.spare ≠ 1 ∧
      (isPlaying = true → isRecording = true → s.doRecord = false → s.riff.fd = -1)
  | _ => True

instance (s : Recorder) (command : RecorderCommand) : Decidable (s.Permits command) :=
  match command with
  | .fillSink isPlaying isRecording _ _ _ _ => inferInstanceAs (Decidable (s.riff.arwc.spare ≠ 1 ∧
      (isPlaying = true → isRecording = true → s.doRecord = false → s.riff.fd = -1)))
  | .wait => .isTrue trivial
  | .complete => .isTrue trivial

variable {rate : UInt32} {s s' : Recorder}

theorem sound_prepare (rate : UInt32) (enough : Bool) (contents : Nat → WriterContents)
    (files : StdString → List UInt8) : (prepare rate enough contents files).Sound rate := by
  obtain ⟨unused, howned, -⟩ := WriterPool.owned_prepare enough contents
  refine ⟨⟨unused, [], howned⟩, .nil, fun arw ↦ ?_, fun _ ↦ rfl, fun h ↦ absurd rfl h, rfl,
    fun name data h ↦ by cases h⟩
  have hidle := howned.idle arw List.not_mem_nil
  show (WriterPool.prepare enough contents).inFlight arw = true ↔ arw ∈ []
  rw [hidle]
  simp

/-- What is known does not depend on what the sink has been told. -/
theorem Sound.setFlags (h : s.Sound rate) (doRecord wasPlaying closing : Bool) :
    Sound rate { s with doRecord := doRecord, wasPlaying := wasPlaying, closing := closing } := by
  refine ⟨h.owned, h.nodup, h.inFlight, h.closed, fun hfd ↦ ?_, h.rate_eq, h.kept⟩
  obtain ⟨header, written, hrecords⟩ := h.opened hfd
  exact ⟨header, written, hrecords.length_eq, hrecords.holds, hrecords.recorded,
    hrecords.destination, hrecords.replaced, hrecords.count⟩

theorem arwc_riffCreateFile (s : Recorder) (name : StdString) (opened : Int32) :
    (s.riffCreateFile name opened).riff.arwc = s.riff.arwc := by
  rw [Recorder.riffCreateFile]
  split <;> rfl

/-- A new file is empty but for the header. -/
theorem Sound.riffCreateFile (h : s.Sound rate) (hfd : s.riff.fd = -1) (name : StdString)
    (opened : Int32) : (s.riffCreateFile name opened).Sound rate := by
  have hqueue := h.closed hfd
  rw [Recorder.riffCreateFile]
  split
  · next hopened =>
    have hcreate := (FileTable.holds_create s.files opened ((name ++ str ".wav").take 1023)).write 0
      s.riff.header.bytes
    refine ⟨h.owned, h.nodup, h.inFlight, fun _ ↦ hqueue, fun _ ↦ ⟨s.riff.header.bytes, [],
      RiffWaveHeader.length_bytes _, ?_, ?_, ?_, Function.update_self .., rfl⟩, h.rate_eq, ?_⟩
    · rw [List.append_nil]
      exact hcreate
    · show [] = [] ++ List.flatMap _ s.queue
      rw [hqueue]
      rfl
    · show ∀ arw ∈ s.queue, _
      rw [hqueue]
      exact List.forall_mem_nil _
    · intro other data hdata
      have hne : other ≠ (name ++ str ".wav").take 1023 := by
        rintro rfl
        cases (Function.update_self ..).symm.trans hdata
      have hdata : s.recordings other = some data :=
        (Function.update_of_ne hne ..).symm.trans hdata
      refine ((FileTable.holds_create s.files opened _).content_write_of_ne hne).trans ?_
      exact (FileTable.content_create_of_ne hne).trans (h.kept other data hdata)
  · next hopened =>
    have hopened : opened = -1 := Decidable.not_not.mp hopened
    refine ⟨h.owned, h.nodup, h.inFlight, fun _ ↦ hqueue, fun hne ↦ absurd hopened hne, h.rate_eq,
      h.kept⟩

/-- A period's data goes to a writer, or is not accepted. -/
theorem Sound.riffWriteData (h : s.Sound rate) (hspare : s.riff.arwc.spare ≠ 1) (enough : Bool)
    (data : List UInt8) : ∃ s', s.riffWriteData enough data = some s' ∧ s'.Sound rate := by
  rw [Recorder.riffWriteData]
  split
  · next hfd =>
    obtain ⟨unused, pending, howned⟩ := h.owned
    obtain ⟨o, t, ht, hinFlight, hcontents, hnone, hsome⟩ :=
      howned.getAsyncRiffWriter enough hspare
    obtain ⟨header, written, hrecords⟩ := h.opened hfd
    rw [Recorder.asyncWriteToRiff, ht]
    cases o with
    | none =>
      refine ⟨_, rfl, hnone rfl, h.nodup, ?_, h.closed, fun _ ↦ ⟨header, written, hrecords.length_eq,
        hrecords.holds, ?_, ?_, hrecords.replaced, ?_⟩, h.rate_eq, h.kept⟩
      · intro arw
        show t.inFlight arw = true ↔ arw ∈ s.queue
        rw [hinFlight]
        exact h.inFlight arw
      · show s.recorded = written ++ s.queue.flatMap fun arw ↦ (t.contents arw).data
        rw [hcontents]
        exact hrecords.recorded
      · show ∀ arw ∈ s.queue, (t.contents arw).fd = s.riff.fd
        rw [hcontents]
        exact hrecords.destination
      · show s.riff.writtenToRiff + 0 = UInt32.ofNat s.recorded.length
        rw [UInt32.add_zero]
        exact hrecords.count
    | some rv =>
      obtain ⟨hidle, howned'⟩ := hsome rv rfl
      have hrv : rv ∉ s.queue := by
        intro hmem
        rw [(h.inFlight rv).mpr hmem] at hidle
        cases hidle
      have hother : ∀ arw ∈ s.queue,
          Function.update t.contents rv ⟨s.riff.fd, data⟩ arw = s.riff.arwc.contents arw := by
        intro arw harw
        rw [Function.update_of_ne (by rintro rfl; exact hrv harw), hcontents]
      refine ⟨_, rfl, howned' _, ?_, ?_, fun he ↦ absurd he hfd, fun _ ↦ ⟨header, written,
        hrecords.length_eq, hrecords.holds, ?_, ?_, hrecords.replaced, ?_⟩, h.rate_eq, h.kept⟩
      · exact List.nodup_append.mpr ⟨h.nodup, List.nodup_singleton rv, fun a ha b hb ↦ by
          rw [List.mem_singleton.mp hb]
          rintro rfl
          exact hrv ha⟩
      · intro arw
        show Function.update t.inFlight rv true arw = true ↔ arw ∈ s.queue ++ [rv]
        rw [Function.update_apply, hinFlight, List.mem_append, List.mem_singleton, ← h.inFlight]
        split
        · next he => simp [he]
        · next hne => simp [hne]
      · show s.recorded ++ data = written ++ (s.queue ++ [rv]).flatMap fun arw ↦
          (Function.update t.contents rv ⟨s.riff.fd, data⟩ arw).data
        rw [List.flatMap_append, List.flatMap_singleton, Function.update_self, ← List.append_assoc,
          List.flatMap_congr fun arw harw ↦ congrArg WriterContents.data (hother arw harw),
          hrecords.recorded, onItsWay]
      · intro arw harw
        show (Function.update t.contents rv ⟨s.riff.fd, data⟩ arw).fd = s.riff.fd
        rcases List.mem_append.mp harw with harw | harw
        · rw [hother arw harw]
          exact hrecords.destination arw harw
        · rw [List.mem_singleton.mp harw, Function.update_self]
      · show s.riff.writtenToRiff + UInt32.ofNat data.length =
          UInt32.ofNat (s.recorded ++ data).length
        rw [hrecords.count, List.length_append, UInt32.ofNat_add]
  · exact ⟨s, rfl, h⟩

/-- A file that is closed gets its lengths. -/
theorem Sound.riffCloseFile (h : s.Sound rate) (hqueue : s.queue = []) :
    s.riffCloseFile.Sound rate := by
  rw [Recorder.riffCloseFile]
  split
  · next hfd =>
    obtain ⟨header, written, hrecords⟩ := h.opened hfd
    have hrecorded : s.recorded = written := by
      rw [hrecords.recorded, onItsWay, hqueue, List.flatMap_nil, List.append_nil]
    refine ⟨h.owned, h.nodup, h.inFlight, fun _ ↦ hqueue, fun hne ↦ absurd rfl hne, h.rate_eq,
      fun name data hdata ↦ ?_⟩
    by_cases hname : name = s.fileName
    · obtain rfl := hname
      obtain rfl : s.recorded = data :=
        Option.some.inj ((Function.update_self s.fileName _ s.recordings).symm.trans hdata)
      refine (hrecords.holds.content_rewind_write
        ((RiffWaveHeader.length_bytes _).trans hrecords.length_eq.symm)).trans ?_
      rw [waveFile, ← hrecords.count, ← h.rate_eq, hrecorded]
    · have hdata : s.recordings name = some data :=
        (Function.update_of_ne hname ..).symm.trans hdata
      exact (hrecords.holds.content_rewind_write_of_ne hname).trans (h.kept name data hdata)
  · exact h

/-- Waiting ends only when the thread has written all. -/
theorem Sound.waitForPending (h : s.Sound rate) :
    ∃ s', s.waitForPending = some s' ∧ s'.Sound rate := by
  obtain ⟨unused, pending, howned⟩ := h.owned
  have hpending : s.riff.arwc.pending = pending.head? := howned.pending.head
  rw [Recorder.waitForPending]
  cases hhead : s.riff.arwc.pending with
  | none =>
    have hnil : pending = [] := List.head?_eq_none_iff.mp (hpending.symm.trans hhead)
    have hqueue : s.queue = [] := by
      refine List.eq_nil_iff_forall_not_mem.mpr fun arw harw ↦ ?_
      have hidle := howned.idle arw (by rw [hnil]; exact List.not_mem_nil)
      rw [(h.inFlight arw).mpr harw] at hidle
      cases hidle
    exact ⟨_, rfl, (h.riffCloseFile hqueue).setFlags _ _ _⟩
  | some arw =>
    obtain ⟨t, ht, hkept, howned'⟩ := howned.poll
    simp only [ht, Option.map_some]
    refine ⟨_, rfl, ⟨_, _, howned'⟩, h.nodup, ?_, h.closed, fun hfd ↦ ?_, h.rate_eq, h.kept⟩
    · intro arw
      rw [hkept.inFlight]
      exact h.inFlight arw
    · obtain ⟨header, written, hrecords⟩ := h.opened hfd
      refine ⟨header, written, hrecords.length_eq, hrecords.holds, ?_, ?_, hrecords.replaced,
        hrecords.count⟩
      · rw [onItsWay, hkept.contents]
        exact hrecords.recorded
      · rw [hkept.contents]
        exact hrecords.destination

/-- The thread appends to the file what was accepted first. -/
theorem Sound.complete (h : s.Sound rate) (hstep : s.complete = some s') : s'.Sound rate := by
  rw [Recorder.complete] at hstep
  split at hstep
  · cases hstep
  · next arw queue hqueue =>
    obtain rfl := Option.some.inj hstep
    have hfd : s.riff.fd ≠ -1 := by
      intro hfd
      rw [h.closed hfd] at hqueue
      cases hqueue
    obtain ⟨header, written, hrecords⟩ := h.opened hfd
    obtain ⟨unused, pending, howned⟩ := h.owned
    have hmem : arw ∈ s.queue := by
      rw [hqueue]
      exact List.mem_cons_self
    have hbusy := (h.inFlight arw).mpr hmem
    have hnodup := h.nodup
    rw [hqueue, List.nodup_cons] at hnodup
    have hsub : ∀ c ∈ queue, c ∈ s.queue := fun c hc ↦ by
      rw [hqueue]
      exact List.mem_cons_of_mem _ hc
    have hdestination := hrecords.destination arw hmem
    have hcontents : (s.riff.arwc.complete arw).contents = s.riff.arwc.contents := by
      rw [WriterPool.complete, if_pos hbusy]
    refine ⟨⟨unused, pending, howned.complete arw⟩, hnodup.2, fun c ↦ ?_, fun he ↦ absurd he hfd,
      fun _ ↦ ⟨header, written ++ (s.riff.arwc.contents arw).data, hrecords.length_eq, ?_, ?_, ?_,
      hrecords.replaced, hrecords.count⟩, h.rate_eq, fun name data hdata ↦ ?_⟩
    · show (s.riff.arwc.complete arw).inFlight c = true ↔ c ∈ queue
      rw [WriterPool.complete, if_pos hbusy]
      show Function.update s.riff.arwc.inFlight arw false c = true ↔ c ∈ queue
      rw [Function.update_apply]
      split
      · next he =>
        rw [he]
        exact ⟨(fun hf ↦ by cases hf), fun hc ↦ absurd hc hnodup.1⟩
      · next hne =>
        rw [h.inFlight, hqueue, List.mem_cons]
        exact ⟨fun hc ↦ hc.resolve_left hne, .inr⟩
    · rw [hdestination, ← List.append_assoc]
      exact hrecords.holds.write 0 _
    · show s.recorded = _ ++ queue.flatMap fun c ↦ ((s.riff.arwc.complete arw).contents c).data
      rw [hcontents, hrecords.recorded, onItsWay, hqueue, List.flatMap_cons, List.append_assoc]
    · show ∀ c ∈ queue, ((s.riff.arwc.complete arw).contents c).fd = s.riff.fd
      rw [hcontents]
      exact fun c hc ↦ hrecords.destination c (hsub c hc)
    · have hne : name ≠ s.fileName := by
        rintro rfl
        cases hrecords.replaced.symm.trans hdata
      refine Eq.trans ?_ (h.kept name data hdata)
      rw [hdestination]
      exact hrecords.holds.content_write_of_ne hne

/-- The callback with `_sinkRecord` or `_sinkJustPlay`. -/
theorem Sound.fillSinkCallback (h : s.Sound rate) (hspare : s.riff.arwc.spare ≠ 1)
    {isRecord : Bool} (hclosed : isRecord = true → s.doRecord = false → s.riff.fd = -1)
    (fname : StdString) (opened : Int32) (output : List UInt8) (enough : Bool) :
    ∃ s', s.fillSinkCallback isRecord fname opened output enough = some s' ∧ s'.Sound rate := by
  rw [Recorder.fillSinkCallback]
  cases isRecord with
  | false => exact (h.setFlags false _ _).riffWriteData hspare enough output
  | true =>
    rw [if_pos rfl]
    split
    · exact h.riffWriteData hspare enough output
    · next hdoRecord =>
      have hfd : s.riff.fd = -1 := hclosed rfl (Bool.eq_false_of_not_eq_true hdoRecord)
      have hset := h.setFlags true s.wasPlaying s.closing
      cases getRecordingFilename fname with
      | none => exact hset.riffWriteData hspare enough output
      | some fileName =>
        refine (hset.riffCreateFile hfd _ opened).riffWriteData ?_ enough output
        rw [arwc_riffCreateFile]
        exact hspare

/-- A step that is permitted. -/
theorem Sound.step (h : s.Sound rate) (command : RecorderCommand) {r : Unit}
    (hpermits : s.Permits command) (hstep : s.step command = some (r, s')) : s'.Sound rate := by
  cases command with
  | fillSink isPlaying isRecording fname opened output enough =>
    rw [Recorder.step] at hstep
    split at hstep
    · cases hstep
    · obtain ⟨t, ht, hs'⟩ := Option.map_eq_some_iff.mp hstep
      obtain ⟨-, rfl⟩ := Prod.mk.inj hs'
      obtain ⟨hspare, hclosed⟩ := hpermits
      rw [internalFillSink] at ht
      split at ht
      · obtain rfl := Option.some.inj ht
        exact h.setFlags _ _ _
      · have hset := h.setFlags s.doRecord isPlaying s.closing
        obtain ⟨u, hu, hsound⟩ := hset.fillSinkCallback hspare
          (fun hboth ↦ hclosed (Bool.and_eq_true_iff.mp hboth).1 (Bool.and_eq_true_iff.mp hboth).2)
          fname opened output enough
        obtain rfl := Option.some.inj (ht.symm.trans hu)
        exact hsound
  | wait =>
    rw [Recorder.step] at hstep
    split at hstep
    · obtain ⟨t, ht, hs'⟩ := Option.map_eq_some_iff.mp hstep
      obtain ⟨-, rfl⟩ := Prod.mk.inj hs'
      obtain ⟨u, hu, hsound⟩ := h.waitForPending
      obtain rfl := Option.some.inj (ht.symm.trans hu)
      exact hsound
    · cases hstep
  | complete =>
    obtain ⟨t, ht, hs'⟩ := Option.map_eq_some_iff.mp hstep
    obtain ⟨-, rfl⟩ := Prod.mk.inj hs'
    exact h.complete ht

end Recorder

end Vuknob
