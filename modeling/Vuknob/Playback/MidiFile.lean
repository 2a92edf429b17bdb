import Vuknob.Midi.FileChunk
import Vuknob.Playback.MidiTrack

/-!
# Exported MIDI files

`MachineSequencer::export2MIDI`, `src_jni/machine_sequencer.cc:1852–1911`. The first chunk is filled
last, when it is known how many of the tracks are not dropped. The file can be opened and written.
-/

namespace Vuknob

open Chunk

/-- What is exported of a `MachineSequencer`. -/
structure SequencerExport where
  siblingName : List UInt8
  player : LoopPlayer

/-- The bytes of a text in the source. -/
def text (s : String) : List UInt8 := s.toList.map fun c ↦ UInt8.ofNat c.toNat

/-- The "end of track" event, `src_jni/machine_sequencer.cc:1491–1495,1601–1605`. -/
def endOfTrack : List Push :=
  [.u32bWordVarLen 0, .u8bWord 0xff, .u8bWord 0x2f, .u32bWordVarLen 0]

/-- The calls of `write_MIDI_info_track`, `src_jni/machine_sequencer.cc:1458–1489`. -/
def infoTrack (msPerQuarterNote : UInt32) : List Push :=
  [.u32bWordVarLen 0, .u8bWord 0xff, .u8bWord 0x02, .string (text "Copyrighted Material"),
    .u32bWordVarLen 0, .u8bWord 0xff, .u8bWord 0x07, .string (text "Created by SATAN for Android"),
    .u32bWordVarLen 0, .u8bWord 0xff, .u8bWord 0x51, .u32bWordVarLen 3,
    .u8bWord ((msPerQuarterNote &&& 0xff0000) >>> 16).toUInt8,
    .u8bWord ((msPerQuarterNote &&& 0x00ff00) >>> 8).toUInt8,
    .u8bWord (msPerQuarterNote &&& 0x0000ff).toUInt8,
    .u32bWordVarLen 0, .u8bWord 0xff, .u8bWord 0x58, .u32bWordVarLen 4,
    .u8bWord 0x02, .u8bWord 0x04, .u8bWord 0x24, .u8bWord 0x08]

/-- The calls for a message, `src_jni/machine_sequencer.cc:1574–1577,1590–1593`, from the copy of
the note entry. -/
def TrackMessage.pushes (m : TrackMessage) : List Push :=
  let copy := m.note.entry.setTo
  [.u32bWordVarLen (UInt32.ofNat m.offset),
    .u8bWord ((if m.on then 0x90 else 0x80) ||| (0x0f &&& copy.channel)), .u8bWord copy.note,
    .u8bWord copy.velocity]

/-- The "Track Name" event, `src_jni/machine_sequencer.cc:1510–1514`. -/
def trackName (siblingName : List UInt8) : List Push :=
  [.u32bWordVarLen 0, .u8bWord 0xff, .u8bWord 0x03, .string siblingName]

section Memory

variable (memory : Nat → Bool)

/-- `write_MIDI_info_track`, `src_jni/machine_sequencer.cc:1452–1496`. -/
def writeMIDIInfoTrack (bpm : Int) : Except ExportFailure Chunk := do
  let midiChunk ← Chunk.new memory (text "MTrk")
  if bpm = 0 then .error .undefined
  else
    let msPerQuarterNote := UInt32.ofInt (Int.tdiv 60000000 bpm)
    let midiChunk ← (infoTrack msPerQuarterNote).foldlM (push memory) midiChunk
    endOfTrack.foldlM (push memory) midiChunk

/-- `export_sequence2midi_file`, `src_jni/machine_sequencer.cc:1504–1609`: the chunk, and whether it
is exported. -/
def exportSequence2midiFile (q : SequencerExport) : Except ExportFailure (Chunk × Bool) := do
  let midiChunk ← Chunk.new memory (text "MTrk")
  let midiChunk ← (trackName q.siblingName).foldlM (push memory) midiChunk
  match q.player.exportNotes with
  | none => .error .undefined
  | some x =>
    let midiChunk ← (x.written.flatMap TrackMessage.pushes).foldlM (push memory) midiChunk
    let midiChunk ← endOfTrack.foldlM (push memory) midiChunk
    .ok (if x.wasDropped then midiChunk.drop else midiChunk, !x.wasDropped)

/-- A round of the loop of `export2MIDI`, `src_jni/machine_sequencer.cc:1880–1890`, on
`nr_of_tracks` and the chunks of the tracks. `export_loops2midi_file` appends nothing and returns
zero. -/
def exportSequencer (justLoops : Bool) (state : UInt16 × List Chunk) (q : SequencerExport) :
    Except ExportFailure (UInt16 × List Chunk) :=
  if justLoops then .ok state
  else do
    let (midiChunk, exported) ← exportSequence2midiFile memory q
    .ok (if exported then state.1 + 1 else state.1, state.2 ++ [midiChunk])

/-- `export2MIDI`, `src_jni/machine_sequencer.cc:1866–1903`: the bytes of the file. -/
def export2MIDI (justLoops : Bool) (bpm lpb : Int) (sequencers : List SequencerExport) :
    Except ExportFailure (List UInt8) := do
  let header ← Chunk.new memory (text "MThd")
  let info ← writeMIDIInfoTrack memory bpm
  let (nrOfTracks, tracks) ← sequencers.foldlM (exportSequencer memory justLoops) (1, [])
  match int (16 * lpb) with
  | none => .error .undefined
  | some ticks =>
    let header ← [.u16bWord 1, .u16bWord nrOfTracks, .u16bWord (UInt16.ofInt ticks)].foldlM
      (push memory) header
    .ok ((header :: info :: tracks).flatMap Chunk.finalize)

end Memory

/-! ### What can come of an export -/

/-- A result is as `P` says, or there is none because of memory where `limited`, or because the
source is undefined where `undef`. No write is behind the end of a block. -/
def ExportOutcome {α : Type} (limited undef : Prop) (P : α → Prop) : Except ExportFailure α → Prop
  | .ok a => P a
  | .error .outOfMemory => limited
  | .error .undefined => undef
  | .error .outOfBounds => False

variable {α β : Type} {limited undef : Prop} {memory : Nat → Bool}

theorem ExportOutcome.bind {P : α → Prop} {Q : β → Prop} {result : Except ExportFailure α}
    {next : α → Except ExportFailure β} (h : ExportOutcome limited undef P result)
    (hnext : ∀ a, P a → ExportOutcome limited undef Q (next a)) :
    ExportOutcome limited undef Q (result >>= next) := by
  cases result with
  | ok a => exact hnext a h
  | error failure => cases failure <;> exact h

theorem ExportOutcome.mono {P Q : α → Prop} {result : Except ExportFailure α}
    (h : ExportOutcome limited undef P result) (himp : ∀ a, P a → Q a) :
    ExportOutcome limited undef Q result := by
  cases result with
  | ok a => exact himp a h
  | error failure => cases failure <;> exact h

/-- A chunk with some data. -/
structure Chunk.Holds (header data : List UInt8) (c : Chunk) : Prop where
  fits : c.Fits
  header_eq : c.header = header
  kept : c.wasDropped = false
  data_eq : c.data = data

theorem outcome_new (hlimited : (∃ size, memory size = false) → limited) (header : List UInt8) :
    ExportOutcome limited undef (Chunk.Holds header []) (Chunk.new memory header) := by
  rcases @new_spec memory header with ⟨hnone, hmemory⟩ | ⟨hsome, hfits⟩
  · rw [hnone]
    exact hlimited hmemory
  · rw [hsome]
    exact ⟨hfits, rfl, rfl, rfl⟩

/-- Calls on a chunk that leave it small enough. -/
theorem outcome_pushes {header data : List UInt8} {c : Chunk} (h : c.Holds header data)
    (pushes : List Push) (size : Nat)
    (hsize : (data ++ pushes.flatMap Push.bytes).length ≤ size)
    (hlimited : (∃ size, memory size = false) ∨ 2 ^ 31 ≤ size + 12 → limited) :
    ExportOutcome limited undef (Chunk.Holds header (data ++ pushes.flatMap Push.bytes))
      (pushes.foldlM (push memory) c) := by
  rcases @pushed_pushAll memory c h.fits pushes with ⟨hnone, hmemory⟩ | ⟨size, hsome, hfits⟩
  · rw [hnone]
    refine hlimited (hmemory.imp_right fun hlarge ↦ ?_)
    rw [currentOffset, h.data_eq] at hlarge
    rw [List.length_append] at hsize
    omega
  · rw [hsome]
    exact ⟨hfits, h.header_eq, h.kept, by rw [← h.data_eq]⟩

/-- The bytes of the "end of track" event. -/
theorem endOfTrack_bytes : endOfTrack.flatMap Push.bytes = [0x00, 0xff, 0x2f, 0x00] := by
  decide +kernel

/-- The bytes of the track of a sequencer. -/
def SequencerExport.track (q : SequencerExport) : List UInt8 :=
  (trackName q.siblingName).flatMap Push.bytes ++
    ((q.player.exportNotes.toList.flatMap (·.written)).flatMap TrackMessage.pushes).flatMap
      Push.bytes ++ endOfTrack.flatMap Push.bytes

/-- The chunk of a track: it has data that ends with the "end of track" event. -/
structure Chunk.IsTrack (c : Chunk) : Prop where
  fits : c.Fits
  header_eq : c.header = text "MTrk"
  ends : [0xff, 0x2f, 0x00] <:+ c.data

theorem Chunk.Holds.isTrack {front : List UInt8} {c : Chunk}
    (h : c.Holds (text "MTrk") (front ++ endOfTrack.flatMap Push.bytes)) : c.IsTrack := by
  refine ⟨h.fits, h.header_eq, ?_⟩
  rw [h.data_eq, endOfTrack_bytes]
  exact ⟨front ++ [0x00], by rw [List.append_assoc]; rfl⟩

theorem outcome_infoTrack (hlimited : (∃ size, memory size = false) → limited) {bpm : Int}
    (hundef : bpm = 0 → undef) :
    ExportOutcome limited undef (fun c ↦ c.IsTrack ∧ c.wasDropped = false)
      (writeMIDIInfoTrack memory bpm) := by
  refine (outcome_new hlimited _).bind fun c hc ↦ ?_
  split
  · next hzero => exact hundef hzero
  · have hlength : ((infoTrack (UInt32.ofInt (Int.tdiv 60000000 bpm))).flatMap Push.bytes ++
        endOfTrack.flatMap Push.bytes).length = 75 := rfl
    rw [List.length_append] at hlength
    refine (outcome_pushes hc _ 75 (by rw [List.nil_append]; omega)
      fun h ↦ hlimited (h.resolve_right (by decide))).bind fun c hc ↦ ?_
    refine (outcome_pushes hc endOfTrack 75 (by
      simp only [List.nil_append, List.length_append]
      omega) fun h ↦ hlimited (h.resolve_right (by decide))).mono fun c hc ↦ ?_
    exact ⟨hc.isTrack, hc.kept⟩

/-- `export_sequence2midi_file` makes a track, and says whether it is dropped. -/
theorem outcome_sequence {q : SequencerExport}
    (hlimited : (∃ size, memory size = false) ∨ 2 ^ 31 ≤ q.track.length + 12 → limited)
    (hundef : q.player.exportNotes = none → undef) :
    ExportOutcome limited undef (fun r ↦ r.1.IsTrack ∧ r.1.wasDropped = !r.2)
      (exportSequence2midiFile memory q) := by
  rw [exportSequence2midiFile]
  rw [SequencerExport.track] at hlimited
  generalize q.player.exportNotes = notes at hlimited hundef ⊢
  generalize hsize : (((trackName q.siblingName).flatMap Push.bytes ++
    ((notes.toList.flatMap (·.written)).flatMap TrackMessage.pushes).flatMap Push.bytes ++
      endOfTrack.flatMap Push.bytes).length) = size at hlimited
  refine (outcome_new (fun h ↦ hlimited (.inl h)) _).bind fun c hc ↦ ?_
  refine (outcome_pushes hc (trackName q.siblingName) size (by
    rw [← hsize, List.nil_append, List.append_assoc]
    exact (List.sublist_append_left ..).length_le) hlimited).bind fun c hc ↦ ?_
  cases notes with
  | none => exact hundef rfl
  | some x =>
    rw [Option.toList_some, List.flatMap_singleton] at hsize
    refine (outcome_pushes hc _ size (by
      rw [← hsize, List.nil_append]
      exact (List.sublist_append_left ..).length_le) hlimited).bind fun c hc ↦ ?_
    refine (outcome_pushes hc endOfTrack size (by
      rw [← hsize, List.nil_append]) hlimited).bind fun c hc ↦ ?_
    have htrack := hc.isTrack
    cases hdropped : x.wasDropped with
    | false =>
      show c.IsTrack ∧ c.wasDropped = !true
      exact ⟨htrack, hc.kept⟩
    | true =>
      show c.drop.IsTrack ∧ c.drop.wasDropped = !false
      exact ⟨⟨⟨htrack.fits.inside, htrack.fits.doubled⟩, htrack.header_eq, htrack.ends⟩, rfl⟩

/-- The tracks that have been appended, and how many of them are not dropped: one more with the
track of information. -/
structure Counted (state : UInt16 × List Chunk) : Prop where
  tracks : ∀ c ∈ state.2, c.IsTrack
  count : state.1.toNat = 1 + state.2.countP (!·.wasDropped)

theorem outcome_sequencers {justLoops : Bool} {sequencers : List SequencerExport}
    (hlimited : (∃ size, memory size = false) ∨
      (∃ q ∈ sequencers, 2 ^ 31 ≤ q.track.length + 12) → limited)
    (hundef : (∃ q ∈ sequencers, q.player.exportNotes = none) → undef)
    {state : UInt16 × List Chunk} (h : Counted state)
    (hfew : state.2.length + sequencers.length < 65535) :
    ExportOutcome limited undef Counted
      (sequencers.foldlM (exportSequencer memory justLoops) state) := by
  induction sequencers generalizing state with
  | nil => exact h
  | cons q sequencers ih =>
    rw [List.length_cons] at hfew
    have hrest := fun {state : UInt16 × List Chunk} ↦ @ih
      (fun hl ↦ hlimited
        (hl.imp_right fun ⟨q, hq, hlarge⟩ ↦ ⟨q, List.mem_cons_of_mem _ hq, hlarge⟩))
      (fun ⟨q, hq, hnone⟩ ↦ hundef ⟨q, List.mem_cons_of_mem _ hq, hnone⟩) state
    have hnext : ExportOutcome limited undef
        (fun state' ↦ Counted state' ∧ state'.2.length ≤ state.2.length + 1)
        (exportSequencer memory justLoops state q) := by
      rw [exportSequencer]
      split
      · exact ⟨h, Nat.le_succ _⟩
      · refine (outcome_sequence
          (fun hl ↦ hlimited (hl.imp_right fun hlarge ↦ ⟨q, List.mem_cons_self .., hlarge⟩))
          (fun hnone ↦ hundef ⟨q, List.mem_cons_self .., hnone⟩)).bind ?_
        rintro ⟨midiChunk, exported⟩ ⟨htrack, hdropped⟩
        refine ⟨⟨fun c hc ↦ ?_, ?_⟩, ?_⟩
        · rcases List.mem_append.mp hc with hc | hc
          · exact h.tracks c hc
          · obtain rfl := List.mem_singleton.mp hc
            exact htrack
        · have hcount := h.count
          have hle : state.2.countP (!·.wasDropped) ≤ state.2.length := List.countP_le_length
          show (if exported = true then state.1 + 1 else state.1).toNat =
            1 + (state.2 ++ [midiChunk]).countP (!·.wasDropped)
          rw [List.countP_append, List.countP_singleton, show midiChunk.wasDropped = !exported from
            hdropped, Bool.not_not]
          split
          · rw [UInt16.toNat_add, hcount]
            show (1 + state.2.countP (!·.wasDropped) + 1) % 65536 = _
            omega
          · omega
        · show (state.2 ++ [midiChunk]).length ≤ state.2.length + 1
          rw [List.length_append, List.length_singleton]
    rw [List.foldlM_cons]
    exact hnext.bind fun state' hstate ↦ hrest hstate.1 (by omega)

/-! ### The file -/

/-- A file: a chunk `MThd` with six bytes, and as many chunks `MTrk` as these say, each of them
ending with the "end of track" event. -/
def IsMidiFile (bytes : List UInt8) : Prop :=
  ∃ (header first : List UInt8) (tracks chunks : List (List UInt8)),
    bytes = first ++ chunks.flatten ∧ IsChunk (text "MThd") header first ∧ header.length = 6 ∧
      List.Forall₂ (IsChunk (text "MTrk")) tracks chunks ∧
      bigEndian ((header.drop 2).take 2) = tracks.length ∧
        ∀ payload ∈ tracks, [0xff, 0x2f, 0x00] <:+ payload

/-- The chunks that are not dropped are written. -/
theorem finalize_tracks {chunks : List Chunk} (h : ∀ c ∈ chunks, c.IsTrack) :
    chunks.flatMap finalize = ((chunks.filter (!·.wasDropped)).map finalize).flatten ∧
      List.Forall₂ (IsChunk (text "MTrk")) ((chunks.filter (!·.wasDropped)).map (·.data))
        ((chunks.filter (!·.wasDropped)).map finalize) := by
  induction chunks with
  | nil => exact ⟨rfl, .nil⟩
  | cons c chunks ih =>
    have hc := h c (List.mem_cons_self ..)
    obtain ⟨hbytes, hchunks⟩ := ih fun c hc ↦ h c (List.mem_cons_of_mem _ hc)
    cases hdropped : c.wasDropped with
    | true =>
      have hnothing : c.finalize = [] := by
        rw [finalize, hdropped]
        exact if_pos (.inl rfl)
      rw [List.flatMap_cons, hnothing, List.nil_append,
        List.filter_cons_of_neg (by simp [hdropped])]
      exact ⟨hbytes, hchunks⟩
    | false =>
      have hdata : c.data ≠ [] := by
        intro hnil
        have hends := hc.ends
        rw [hnil] at hends
        exact absurd (List.suffix_nil.mp hends) (by decide)
      have hchunk := isChunk_finalize hc.fits hdropped hdata
      rw [hc.header_eq] at hchunk
      rw [List.flatMap_cons, List.filter_cons_of_pos (by simp [hdropped]), List.map_cons,
        List.map_cons, List.flatten_cons, hbytes]
      exact ⟨rfl, .cons hchunk hchunks⟩

/-- The chunks of an export are a file. -/
theorem isMidiFile {header info : Chunk} {nrOfTracks ticks : UInt16} {tracks : List Chunk}
    (hheader : header.Holds (text "MThd") ([] ++ List.flatMap Push.bytes
      [.u16bWord 1, .u16bWord nrOfTracks, .u16bWord ticks]))
    (hinfo : info.IsTrack) (hkept : info.wasDropped = false) (h : Counted (nrOfTracks, tracks)) :
    IsMidiFile ((header :: info :: tracks).flatMap finalize) := by
  have htracks : ∀ c ∈ info :: tracks, c.IsTrack := by
    intro c hc
    rcases List.mem_cons.mp hc with rfl | hc
    · exact hinfo
    · exact h.tracks c hc
  obtain ⟨hbytes, hchunks⟩ := finalize_tracks htracks
  have hlength : header.data.length = 6 := by
    rw [hheader.data_eq]
    rfl
  have hchunk := isChunk_finalize hheader.fits hheader.kept fun hnil ↦ by
    rw [hnil] at hlength
    cases hlength
  rw [hheader.header_eq] at hchunk
  refine ⟨header.data, header.finalize, _, _, ?_, hchunk, hlength, hchunks, ?_, ?_⟩
  · rw [List.flatMap_cons, hbytes]
  · have hnumber : (header.data.drop 2).take 2 = (Push.u16bWord nrOfTracks).bytes := by
      rw [hheader.data_eq]
      rfl
    have hcount : nrOfTracks.toNat = 1 + tracks.countP (!·.wasDropped) := h.count
    rw [hnumber, bigEndian_u16bWord, List.length_map, ← List.countP_eq_length_filter,
      List.countP_cons_of_pos (by simp [hkept]), hcount, Nat.add_comm]
  · intro payload hpayload
    obtain ⟨c, hc, rfl⟩ := List.mem_map.mp hpayload
    exact (htracks c (List.mem_of_mem_filter hc)).ends

theorem outcome_export2MIDI {justLoops : Bool} {bpm lpb : Int} {sequencers : List SequencerExport}
    (hlimited : (∃ size, memory size = false) ∨
      (∃ q ∈ sequencers, 2 ^ 31 ≤ q.track.length + 12) → limited)
    (hundef : bpm = 0 ∨ int (16 * lpb) = none ∨
      (∃ q ∈ sequencers, q.player.exportNotes = none) → undef)
    (hfew : sequencers.length < 65535) :
    ExportOutcome limited undef IsMidiFile (export2MIDI memory justLoops bpm lpb sequencers) := by
  refine (outcome_new (fun h ↦ hlimited (.inl h)) _).bind fun header hheader ↦ ?_
  refine (outcome_infoTrack (fun h ↦ hlimited (.inl h)) (fun h ↦ hundef (.inl h))).bind
    fun info hinfo ↦ ?_
  have hstart : Counted (1, []) := ⟨nofun, rfl⟩
  refine (outcome_sequencers hlimited (fun h ↦ hundef (.inr (.inr h))) hstart
    (by simpa using hfew)).bind ?_
  rintro ⟨nrOfTracks, tracks⟩ hcounted
  cases hticks : int (16 * lpb) with
  | none => exact hundef (.inr (.inl hticks))
  | some ticks =>
    refine (outcome_pushes hheader _ 6 (Nat.le_of_eq rfl)
      fun h ↦ hlimited (.inl (h.resolve_right (by decide)))).bind fun header hheader ↦ ?_
    exact isMidiFile hheader hinfo.1 hinfo.2 hcounted

/-- No byte is written behind the end of a block, and the bytes of the file are well formed. There
is a file where memory is granted, no track is too large and no arithmetic is undefined. -/
theorem export2MIDI_isMidiFile (memory : Nat → Bool) (justLoops : Bool) (bpm lpb : Int)
    {sequencers : List SequencerExport} (hfew : sequencers.length < 65535) :
    export2MIDI memory justLoops bpm lpb sequencers ≠ .error .outOfBounds ∧
      (∀ bytes, export2MIDI memory justLoops bpm lpb sequencers = .ok bytes → IsMidiFile bytes) ∧
      ((∀ size, memory size = true) → (∀ q ∈ sequencers, q.track.length + 12 < 2 ^ 31) → bpm ≠ 0 →
        (int (16 * lpb)).isSome → (∀ q ∈ sequencers, q.player.exportNotes.isSome) →
          ∃ bytes, export2MIDI memory justLoops bpm lpb sequencers = .ok bytes) := by
  have houtcome := @outcome_export2MIDI _ _ memory justLoops bpm lpb sequencers id id hfew
  generalize export2MIDI memory justLoops bpm lpb sequencers = result at houtcome ⊢
  refine ⟨?_, ?_, fun hmemory hsmall hbpm hlpb hdefined ↦ ?_⟩
  · rintro rfl
    exact houtcome
  · rintro bytes rfl
    exact houtcome
  · cases result with
    | ok bytes => exact ⟨bytes, rfl⟩
    | error failure =>
      cases failure with
      | outOfBounds => exact absurd houtcome id
      | outOfMemory =>
        rcases houtcome with ⟨size, hno⟩ | ⟨q, hq, hlarge⟩
        · rw [hmemory size] at hno
          cases hno
        · have := hsmall q hq
          omega
      | undefined =>
        rcases houtcome with hzero | hnone | ⟨q, hq, hnone⟩
        · exact absurd hzero hbpm
        · rw [hnone] at hlpb
          cases hlpb
        · have hsome := hdefined q hq
          rw [hnone] at hsome
          cases hsome

/-- Two sequencers, one of them without loops. -/
def twoSequencers : List SequencerExport :=
  [⟨text "lead", LoopPlayer.oneNote 3⟩, ⟨text "bass", ⟨[], List.replicate 16 none, none⟩⟩]

/-- The file has the track of information and one of the two tracks. -/
theorem export2MIDI_isMidiFile_twoSequencers : ∃ bytes,
    export2MIDI (fun _ ↦ true) false 120 4 twoSequencers = .ok bytes ∧ IsMidiFile bytes := by
  have hok : (export2MIDI (fun _ ↦ true) false 120 4 twoSequencers).toOption.isSome = true := by
    decide +kernel
  obtain ⟨-, hfile, -⟩ :=
    @export2MIDI_isMidiFile (fun _ ↦ true) false 120 4 twoSequencers (by decide)
  generalize export2MIDI (fun _ ↦ true) false 120 4 twoSequencers = result at hok hfile ⊢
  cases result with
  | ok bytes => exact ⟨bytes, rfl, hfile bytes rfl⟩
  | error failure => cases hok

end Vuknob
