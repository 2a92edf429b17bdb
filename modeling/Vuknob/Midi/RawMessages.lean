import Vuknob.Midi.Fifo

/-!
# Messages in raw data

`queue_midi_data`, `src_jni/midi_generation.cc:205–231`, with the places of the array that it reads.
The data is what `RIMachine::process_message_server` has decoded,
`src_jni/remote_interface.cc:2452–2469`, in a copy that `enqueue_midi_data` makes of it,
`src_jni/machine_sequencer.cc:1179–1191`. The loop looks whether there is a status byte, not whether
the data bytes of its message are there as well.
-/

namespace Vuknob

open Library

/-- What `queue_midi_data` does: the indices of `data` it reads, and the calls on its builder. -/
structure MidiParse where
  reads : List Nat
  calls : List MidiCall
  deriving DecidableEq

/-- The loop of `queue_midi_data` from an offset on; `data` is the memory behind the pointer, of
which `len` bytes belong to the array. -/
def queueMidiLoop (data : Nat → UInt8) (len offset : Nat) : MidiParse :=
  if offset < len then
    match midiMessage (data offset) (data (offset + 1)) (data (offset + 2)) with
    | some call =>
      let rest := queueMidiLoop data len (offset + 3)
      ⟨offset :: (offset + 1) :: (offset + 2) :: rest.reads, call :: rest.calls⟩
    | none => ⟨[offset], []⟩
  else ⟨[], []⟩
termination_by len - offset

/-- The bytes of the array from an offset on. -/
def bytesFrom (data : Nat → UInt8) (len offset : Nat) : List UInt8 :=
  (List.range' offset (len - offset)).map data

/-- The status byte of a message that is implemented. -/
def Supported (status : UInt8) : Prop :=
  status &&& 0xf0 ∈ [midiNoteOff, midiNoteOn, midiControlChange, midiPitchBend]

instance (status : UInt8) : Decidable (Supported status) :=
  inferInstanceAs (Decidable (_ ∈ _))

/-- The complete messages, up to the first status byte that is not implemented or the first message
that is not complete. -/
def completeMessages : List UInt8 → List (List UInt8)
  | status :: first :: second :: bytes =>
    if Supported status then [status, first, second] :: completeMessages bytes else []
  | _ => []

/-- The data consists of complete messages, and what is behind them starts with a status byte that
is not implemented. -/
inductive Delimited : List UInt8 → Prop
  | nil : Delimited []
  | unsupported {status : UInt8} {bytes : List UInt8} (h : ¬ Supported status) :
    Delimited (status :: bytes)
  | message {status first second : UInt8} {bytes : List UInt8} (h : Supported status)
    (hrest : Delimited bytes) : Delimited (status :: first :: second :: bytes)

/-! ### Messages and calls -/

theorem isSome_midiMessage (status first second : UInt8) :
    (midiMessage status first second).isSome ↔ Supported status := by
  simp only [midiMessage, Supported, List.mem_cons, List.not_mem_nil, or_false]
  split_ifs with hoff hon hcontrol hbend <;> simp_all

theorem not_supported_of_none {status first second : UInt8}
    (h : midiMessage status first second = none) : ¬ Supported status := by
  rw [← isSome_midiMessage status first second, h]
  exact Bool.false_ne_true

theorem lowByte_charArgument (byte : UInt8) : lowByte (charArgument byte) = byte := by
  simp [lowByte, charArgument]

theorem and_or_and (status : UInt8) : (status &&& 0xf0) ||| (status &&& 0x0f) = status := by
  apply UInt8.eq_of_toBitVec_eq
  show status.toBitVec &&& 0xf0#8 ||| status.toBitVec &&& 0x0f#8 = status.toBitVec
  rw [← BitVec.and_or_distrib_left]
  exact BitVec.and_allOnes

/-- The event of a message has its channel and its bytes. -/
theorem message_midiMessage {status first second : UInt8} {call : MidiCall}
    (h : midiMessage status first second = some call) :
    call.message = [status, first, second] := by
  have hbyte : ∀ kind, status &&& 0xf0 = kind →
      statusByte kind (charArgument (status &&& 0x0f)) = status := by
    rintro kind rfl
    rw [statusByte, lowByte_charArgument, UInt8.and_assoc]
    exact and_or_and status
  simp only [midiMessage] at h
  split_ifs at h with hoff hon hcontrol hbend
  · obtain rfl := Option.some.inj h
    simp only [MidiCall.message, lowByte_charArgument, hbyte _ hoff]
  · obtain rfl := Option.some.inj h
    simp only [MidiCall.message, lowByte_charArgument, hbyte _ hon]
  · obtain rfl := Option.some.inj h
    simp only [MidiCall.message, lowByte_charArgument, hbyte _ hcontrol]
  · obtain rfl := Option.some.inj h
    simp only [MidiCall.message, lowByte_charArgument, hbyte _ hbend]

/-! ### The loop -/

section Loop

variable {data : Nat → UInt8} {len offset : Nat}

theorem bytesFrom_of_le (h : len ≤ offset) : bytesFrom data len offset = [] := by
  rw [bytesFrom, Nat.sub_eq_zero_of_le h]
  rfl

theorem bytesFrom_of_lt (h : offset < len) :
    bytesFrom data len offset = data offset :: bytesFrom data len (offset + 1) := by
  rw [bytesFrom, show len - offset = len - (offset + 1) + 1 by omega, List.range'_succ]
  rfl

theorem bytesFrom_message (h : offset + 2 < len) :
    bytesFrom data len offset =
      data offset :: data (offset + 1) :: data (offset + 2) :: bytesFrom data len (offset + 3) := by
  rw [bytesFrom_of_lt (by omega), bytesFrom_of_lt (by omega), bytesFrom_of_lt h]

/-- The loop stays in the array exactly if the data is delimited. -/
theorem reads_lt_iff (data : Nat → UInt8) (len offset : Nat) :
    (∀ i ∈ (queueMidiLoop data len offset).reads, i < len) ↔
      Delimited (bytesFrom data len offset) := by
  fun_induction queueMidiLoop data len offset with
  | case1 offset hlt call hcall rest ih =>
    have hs := (isSome_midiMessage _ _ _).mp (Option.isSome_of_eq_some hcall)
    simp only [List.forall_mem_cons]
    constructor
    · rintro ⟨-, -, hsecond, hrest⟩
      rw [bytesFrom_message hsecond]
      exact .message hs (ih.mp hrest)
    · intro hdelimited
      by_cases hsecond : offset + 2 < len
      · rw [bytesFrom_message hsecond] at hdelimited
        cases hdelimited with
        | unsupported h => exact absurd hs h
        | message _ hrest => exact ⟨hlt, by omega, hsecond, ih.mpr hrest⟩
      · -- one or two bytes are left
        rw [bytesFrom_of_lt hlt] at hdelimited
        by_cases hfirst : offset + 1 < len
        · rw [bytesFrom_of_lt hfirst, bytesFrom_of_le (by omega)] at hdelimited
          cases hdelimited with
          | unsupported h => exact absurd hs h
        · rw [bytesFrom_of_le (by omega)] at hdelimited
          cases hdelimited with
          | unsupported h => exact absurd hs h
  | case2 offset hlt hnone =>
    have hs := not_supported_of_none hnone
    rw [bytesFrom_of_lt hlt]
    exact iff_of_true (List.forall_mem_singleton.mpr hlt) (.unsupported hs)
  | case3 offset hle =>
    rw [bytesFrom_of_le (Nat.le_of_not_lt hle)]
    exact iff_of_true nofun .nil

/-- The calls that are made of delimited data. -/
theorem message_calls {data : Nat → UInt8} {len offset : Nat}
    (h : Delimited (bytesFrom data len offset)) :
    (queueMidiLoop data len offset).calls.map MidiCall.message =
      completeMessages (bytesFrom data len offset) := by
  rw [← reads_lt_iff] at h
  fun_induction queueMidiLoop data len offset with
  | case1 offset hlt call hcall rest ih =>
    have hs := (isSome_midiMessage _ _ _).mp (Option.isSome_of_eq_some hcall)
    simp only [List.forall_mem_cons] at h
    obtain ⟨-, -, hsecond, hrest⟩ := h
    rw [bytesFrom_message hsecond, completeMessages, if_pos hs, ← ih hrest,
      ← message_midiMessage hcall]
    rfl
  | case2 offset hlt hnone =>
    have hs := not_supported_of_none hnone
    rw [bytesFrom_of_lt hlt]
    rcases bytesFrom data len (offset + 1) with - | ⟨first, - | ⟨second, bytes⟩⟩
    · rfl
    · rfl
    · rw [completeMessages, if_neg hs]
      rfl
  | case3 offset hle =>
    rw [bytesFrom_of_le (Nat.le_of_not_lt hle)]
    rfl

theorem queues_of_queueMidiLoop (data : Nat → UInt8) (len offset : Nat) :
    ∀ call ∈ (queueMidiLoop data len offset).calls, call.queues = true := by
  fun_induction queueMidiLoop data len offset with
  | case1 offset hlt call hcall rest ih =>
    exact List.forall_mem_cons.mpr ⟨queues_of_midiMessage hcall, ih⟩
  | case2 | case3 => exact nofun

/-- As a function of the bytes it is undefined where the loop leaves the array. -/
theorem queueMidiData_bytesFrom (data : Nat → UInt8) (len offset : Nat) :
    queueMidiData (bytesFrom data len offset) =
      if ∀ i ∈ (queueMidiLoop data len offset).reads, i < len then
        some (queueMidiLoop data len offset).calls
      else none := by
  fun_induction queueMidiLoop data len offset with
  | case1 offset hlt call hcall rest ih =>
    have hs := (isSome_midiMessage _ _ _).mp (Option.isSome_of_eq_some hcall)
    simp only [List.forall_mem_cons]
    by_cases hsecond : offset + 2 < len
    · rw [bytesFrom_message hsecond, queueMidiData, hcall]
      dsimp only
      rw [ih]
      have hfirst : offset + 1 < len := by omega
      simp only [hlt, hfirst, hsecond, true_and]
      split <;> rfl
    · have hsome := (isSome_midiMessage (data offset) 0 0).mpr hs
      rw [if_neg fun h ↦ hsecond h.2.2.1, bytesFrom_of_lt hlt]
      by_cases hfirst : offset + 1 < len
      · rw [bytesFrom_of_lt hfirst, bytesFrom_of_le (by omega)]
        exact if_pos hsome
      · rw [bytesFrom_of_le (by omega)]
        exact if_pos hsome
  | case2 offset hlt hnone =>
    have hs := not_supported_of_none hnone
    rw [if_pos ((List.forall_mem_singleton (p := (· < len))).mpr hlt), bytesFrom_of_lt hlt]
    have hno : ∀ first second, midiMessage (data offset) first second = none := fun first second ↦
      Option.not_isSome_iff_eq_none.mp fun h ↦ hs ((isSome_midiMessage ..).mp h)
    rcases bytesFrom data len (offset + 1) with - | ⟨first, - | ⟨second, bytes⟩⟩
    · rw [queueMidiData, hno]
      rfl
      all_goals nofun
    · rw [queueMidiData, hno]
      rfl
      nofun
    · rw [queueMidiData, hno]
  | case3 offset hle =>
    rw [bytesFrom_of_le (Nat.le_of_not_lt hle), if_pos nofun]
    rfl

end Loop

/-! ### Events -/

namespace Logged

variable {ι : Type} [DecidableEq ι] {w w' : Logged ι} {b : ι} {calls : List MidiCall}

/-- The messages of the events that a builder was told to queue. -/
def messages (w : Logged ι) (b : ι) : List (List UInt8) := (w.logs b).requests.map (·.item.2)

/-- A call that queues an event is noted, and the event holds the message. -/
theorem step_of_queues {call : MidiCall} {mev : Option EventId} (hq : call.queues = true)
    (h : w.step (b, call) = some (mev, w')) :
    (w'.logs b).round = (w.logs b).round ∧ w'.messages b = w.messages b ++ [call.message] ∧
      ∃ e, mev = some e ∧ w'.space.item e = (e, call.message) := by
  obtain ⟨⟨r, s⟩, hstep, heq⟩ := Option.map_eq_some_iff.mp h
  obtain ⟨rfl, rfl⟩ := Prod.mk.inj heq
  obtain ⟨status, first, second, e, g, hmessage, rfl, rfl, hqueue⟩ :=
    MidiSpace.step_queue hq hstep
  have hturn : (w.logs b).turn call = w.logs b := by
    cases call with
    | useBuffer | finishCurrentBuffer | skip => cases hq
    | queueNoteOn | queueNoteOff | queueController | queuePitchBend => rfl
  have hevent := (Building.queue_buffer hqueue).1
  refine ⟨?_, ?_, e, rfl, ?_⟩
  · dsimp only
    rw [Function.update_self, hturn]
    rfl
  · dsimp only [messages]
    rw [Function.update_self, hturn, MidiLog.note, List.map_append]
    rfl
  · rw [MidiSpace.item, MidiSpace.put_heap, hevent, hmessage]

/-- Calls that queue events, one after the other. -/
theorem messages_of_run (hq : ∀ call ∈ calls, call.queues = true)
    (hrun : Run Logged.step (fun _ _ _ ↦ True) w (calls.map fun call ↦ (b, call)) w') :
    w'.messages b = w.messages b ++ calls.map MidiCall.message := by
  induction calls generalizing w with
  | nil =>
    cases hrun
    exact (List.append_nil _).symm
  | cons call calls ih =>
    cases hrun with
    | cons hstep _ hrest =>
      obtain ⟨hcall, hcalls⟩ := List.forall_mem_cons.mp hq
      rw [ih hcalls hrest, (step_of_queues hcall hstep).2.1, List.append_assoc]
      rfl

/-- They are carried out by a builder that has been given a buffer. -/
theorem Kept.exists_run {base : Nat} {nodes : Place ι → List EventId} (hk : w.Kept base nodes)
    (hround : (w.logs b).round ≠ 0) (hq : ∀ call ∈ calls, call.queues = true) :
    ∃ w', Run Logged.step (fun _ _ _ ↦ True) w (calls.map fun call ↦ (b, call)) w' := by
  induction calls generalizing w nodes with
  | nil => exact ⟨w, .nil w⟩
  | cons call calls ih =>
    obtain ⟨hcall, hcalls⟩ := List.forall_mem_cons.mp hq
    have hproper : w.Proper b call := by
      refine ⟨.inr hround, ?_⟩
      rintro length rfl
      cases hcall
    obtain ⟨mev, w₁, hstep⟩ := hk.exists_step hproper
    obtain ⟨nodes₁, hk₁⟩ := hk.step hstep
    obtain ⟨w', hrest⟩ := ih hk₁ ((step_of_queues hcall hstep).1.symm ▸ hround) hcalls
    exact ⟨w', .cons hstep trivial hrest⟩

end Logged

/-- The loop reads nothing but the array, and a builder that is in use queues exactly one event for
each complete message, with its bytes. -/
structure QueuesMessages (data : Nat → UInt8) (len : Nat) : Prop where
  inBounds : ∀ i ∈ (queueMidiLoop data len 0).reads, i < len
  queued : ∀ {ι : Type} [DecidableEq ι] {s : MidiSpace ι} {before : List (ι × MidiCall)}
    {w : Logged ι} {b : ι}, s.Initial →
    Run Logged.step (fun _ _ _ ↦ True) (Logged.start s) before w → (w.logs b).round ≠ 0 →
    ∃ w', Run Logged.step (fun _ _ _ ↦ True) w
        ((queueMidiLoop data len 0).calls.map fun call ↦ (b, call)) w' ∧
      w'.messages b = w.messages b ++ completeMessages (bytesFrom data len 0)

/-- It does so exactly if no message breaks off at the end of the array. -/
theorem queuesMessages_iff (data : Nat → UInt8) (len : Nat) :
    QueuesMessages data len ↔ Delimited (bytesFrom data len 0) := by
  constructor
  · intro h
    exact (reads_lt_iff data len 0).mp h.inBounds
  · intro h
    refine ⟨(reads_lt_iff data len 0).mpr h, fun hs hrun hround ↦ ?_⟩
    have hq := queues_of_queueMidiLoop data len 0
    obtain ⟨nodes, hk⟩ := Logged.kept_of_run hs hrun
    obtain ⟨w', hw'⟩ := hk.exists_run hround hq
    refine ⟨w', hw', ?_⟩
    rw [Logged.messages_of_run hq hw', message_calls h]

/-- A note-on without data bytes: the byte behind the array is read. -/
theorem reads_behind_status : ¬ ∀ (data : Nat → UInt8) (len : Nat), QueuesMessages data len := by
  intro h
  have hread := (h (fun _ ↦ 0x90) 1).inBounds
  rw [queueMidiLoop] at hread
  exact absurd (hread 1 (.tail _ (.head _))) (Nat.lt_irrefl 1)

end Vuknob
