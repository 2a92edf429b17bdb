import Vuknob.Base.StdString
import Vuknob.Library.FileDescriptors
import Vuknob.Playback.WaveWriters

/-!
# Recording the sink to wave files

`src_jni/dynlib/riff_wave_output.c:182–310`, the callback of the sink,
`src_jni/dynlib/liveout.c:1822–1879`, and when it is called, `src_jni/machine.cc:1864–1910`. The
thread of the asynchronous operations carries them out in the order in which they were given to it.
Every `write` to an open descriptor writes all the bytes.
-/

namespace Vuknob

open Library

/-- A number in little endian, as the header has it. -/
def headerBytes (v : UInt32) : List UInt8 :=
  [(v &&& 0x000000ff).toUInt8, ((v &&& 0x0000ff00) >>> 8).toUInt8,
    ((v &&& 0x00ff0000) >>> 16).toUInt8, ((v &&& 0xff000000) >>> 24).toUInt8]

/-- `RIFF_WAVE_header`, `src_jni/dynlib/riff_wave_output.h:54–71`, as `RIFF_prepare` has set it: the
fields that it makes from the rate, and the two that are set when a file is closed. -/
structure RiffWaveHeader where
  rate : UInt32
  length : UInt32
  dataSize : UInt32
  deriving DecidableEq

/-- The bytes of the header. -/
def RiffWaveHeader.bytes (h : RiffWaveHeader) : List UInt8 :=
  str "RIFF" ++ headerBytes h.length ++ str "WAVE" ++
    str "fmt " ++ [0x10, 0x00, 0x00, 0x00] ++ [0x01, 0x00] ++ [0x02, 0x00] ++ headerBytes h.rate ++
    headerBytes (h.rate * 2 * 2) ++ [0x04, 0x00] ++ [0x10, 0x00] ++
    str "data" ++ headerBytes h.dataSize

/-- `RIFF_WAVE_FILE`, `src_jni/dynlib/riff_wave_output.h:73–81`. -/
structure RiffWaveFile where
  header : RiffWaveHeader
  fd : Int32
  writtenToRiff : UInt32
  arwc : WriterPool

/-- The sink with its file, `src_jni/dynlib/liveout.c:1558–1594`, what the thread has been given, and
the files. `closing` is whether `RIFF_close_file` waits. What has been accepted since the file was
opened is noted, and what should be in the files that have been closed. -/
structure Recorder where
  riff : RiffWaveFile
  doRecord : Bool
  wasPlaying : Bool
  closing : Bool
  queue : List Nat
  files : FileTable Int32 StdString UInt8
  fileName : StdString
  recorded : List UInt8
  recordings : StdString → Option (List UInt8)

/-- A period of the sink, a round of the loop that waits for the writers, or an operation of the
thread. A period has what `is_playing` and `is_recording` are, the name that has been set, the
descriptor that `open` would give, or -1, the samples of the period, and whether there is memory. -/
inductive RecorderCommand
  | fillSink (isPlaying isRecording : Bool) (fname : StdString) (opened : Int32)
      (output : List UInt8) (enough : Bool)
  | wait
  | complete

namespace Recorder

/-- `RIFF_prepare`, `src_jni/dynlib/riff_wave_output.c:182–243`, in an instance that has been
cleared. -/
def prepare (rate : UInt32) (enough : Bool) (contents : Nat → WriterContents)
    (files : StdString → List UInt8) : Recorder :=
  { riff := ⟨⟨rate, 0, 0⟩, -1, 0, .prepare enough contents⟩
    doRecord := false
    wasPlaying := true
    closing := false
    queue := []
    files := ⟨files, fun _ ↦ none⟩
    fileName := []
    recorded := []
    recordings := fun _ ↦ none }

/-- `RIFF_create_file`, `src_jni/dynlib/riff_wave_output.c:245–266`. -/
def riffCreateFile (s : Recorder) (name : StdString) (opened : Int32) : Recorder :=
  let bfr := (name ++ str ".wav").take 1023
  let s := { s with riff := { s.riff with fd := opened } }
  if opened ≠ -1 then
    { s with
      riff := { s.riff with writtenToRiff := 0 }
      files := (s.files.create opened bfr).write 0 opened s.riff.header.bytes
      fileName := bfr
      recorded := []
      recordings := Function.update s.recordings bfr none }
  else s

/-- `RIFF_close_file` when no writer is pending any more,
`src_jni/dynlib/riff_wave_output.c:271–294`. -/
def riffCloseFile (s : Recorder) : Recorder :=
  if s.riff.fd ≠ -1 then
    let length := s.riff.writtenToRiff + 36
    let header := { s.riff.header with dataSize := s.riff.writtenToRiff, length := length }
    let files := ((s.files.rewind s.riff.fd).write 0 s.riff.fd header.bytes).close s.riff.fd
    { s with
      riff := { s.riff with header, writtenToRiff := length, fd := -1 }
      files
      recordings := Function.update s.recordings s.fileName (some s.recorded) }
  else s

/-- `async_write_to_riff`, `src_jni/dynlib/riff_wave_output.c:152–168`; the operation of the writer
is given to the thread. -/
def asyncWriteToRiff (s : Recorder) (enough : Bool) (contents : WriterContents) :
    Option (UInt32 × Recorder) := do
  let (arw, pool) ← s.riff.arwc.getAsyncRiffWriter enough
  match arw with
  | none => return (0, { s with riff := { s.riff with arwc := pool } })
  | some arw =>
    let pool := { pool with contents := Function.update pool.contents arw contents }
    return (UInt32.ofNat contents.data.length,
      { s with
        riff := { s.riff with arwc := pool.queueAsyncWriter arw }
        queue := s.queue ++ [arw]
        recorded := s.recorded ++ contents.data })

/-- `RIFF_write_data`, `src_jni/dynlib/riff_wave_output.c:297–310`. -/
def riffWriteData (s : Recorder) (enough : Bool) (data : List UInt8) : Option Recorder :=
  if s.riff.fd ≠ -1 then do
    let (k, s) ← s.asyncWriteToRiff enough ⟨s.riff.fd, data⟩
    return { s with riff := { s.riff with writtenToRiff := s.riff.writtenToRiff + k } }
  else some s

/-- `get_recording_filename`, `src_jni/dynamic_machine.cc:1197–1207`, for a buffer of 1024 bytes. -/
def getRecordingFilename (fname : StdString) : Option StdString :=
  if 1024 ≤ fname.length then none else some (cString fname)

/-- `fill_sink_callback` with `_sinkRecord` or `_sinkJustPlay`,
`src_jni/dynlib/liveout.c:1832–1851, 1873–1878`. -/
def fillSinkCallback (s : Recorder) (isRecord : Bool) (fname : StdString) (opened : Int32)
    (output : List UInt8) (enough : Bool) : Option Recorder :=
  let s :=
    if isRecord then
      if s.doRecord then s
      else
        let s := { s with doRecord := true }
        match getRecordingFilename fname with
        | none => s
        | some fileName =>
          s.riffCreateFile (if fileName = [] then str "/mnt/sdcard/SATAN_OUTPUT.WAV" else fileName)
            opened
    else { s with doRecord := false }
  s.riffWriteData enough output

/-- `internal_fill_sink`, `src_jni/machine.cc:1876–1907`. When playback has stopped,
`fill_sink_callback` is called with `_sinkPaused` first, and waits. -/
def internalFillSink (s : Recorder) (isPlaying isRecording : Bool) (fname : StdString)
    (opened : Int32) (output : List UInt8) (enough : Bool) : Option Recorder :=
  if !isPlaying && s.wasPlaying then
    some { s with wasPlaying := false, closing := true }
  else
    -- With `_sinkResumed` the callback does nothing.
    { s with wasPlaying := isPlaying }.fillSinkCallback (isPlaying && isRecording) fname opened
      output enough

/-- A test of the loop of `wait_for_pending_async_riff_writers`,
`src_jni/dynlib/riff_wave_output.c:169–174`, and what follows when it ends: the file is closed, and
the other call of the callback, with `_sinkJustPlay`, has nothing to write to. -/
def waitForPending (s : Recorder) : Option Recorder :=
  match s.riff.arwc.pending with
  | none => some { s.riffCloseFile with doRecord := false, closing := false }
  | some _ => s.riff.arwc.pollPendingAsyncRiffWriters.map fun pool ↦
      { s with riff := { s.riff with arwc := pool } }

/-- The thread carries out the operation that it was given first: `async_riff_writer_callback`,
`src_jni/dynlib/riff_wave_output.c:51–58`, and then it says that it has. -/
def complete (s : Recorder) : Option Recorder :=
  match s.queue with
  | [] => none
  | arw :: queue =>
    let contents := s.riff.arwc.contents arw
    some { s with
      riff := { s.riff with arwc := s.riff.arwc.complete arw }
      queue
      files := s.files.write 0 contents.fd contents.data }

/-- A period begins when the one before has ended. -/
def step (s : Recorder) (command : RecorderCommand) : Option (Unit × Recorder) :=
  match command with
  | .fillSink isPlaying isRecording fname opened output enough =>
    if s.closing then none
    else (s.internalFillSink isPlaying isRecording fname opened output enough).map ((), ·)
  | .wait => if s.closing then s.waitForPending.map ((), ·) else none
  | .complete => s.complete.map ((), ·)

end Recorder

end Vuknob
