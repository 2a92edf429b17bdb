import Vuknob.Library.Runs
import Vuknob.Remote.ReadLoop

/-!
# From one end of a connection to the other

`MessageHandler::deliver_message` and `do_write`, `src_jni/remote_interface.cc:319–338` and
`361–376`, at one end of a connection and the read loop at the other end. Messages wait in
`write_msgs`. One asynchronous operation at a time hands the bytes of the first of them to the
socket, a part at a time. Deliveries by UDP are left out, and so is what `on_connection_dropped`
does at the sending end.
-/

namespace Vuknob

open Message Library

/-- `write_msgs`, and what is left of the asynchronous write. -/
structure Outgoing where
  writeMsgs : List Message
  writing : Option StdString

namespace Outgoing

/-- `do_write`, `src_jni/remote_interface.cc:319–338`. An empty queue has no front, and the bytes
of two writes at a time would be mixed. -/
def doWrite (o : Outgoing) : Option Outgoing :=
  match o.writeMsgs, o.writing with
  | msg :: _, none => some { o with writing := some msg.sbuf }
  | _, _ => none

/-- `deliver_message`, `src_jni/remote_interface.cc:361–376`. -/
def deliverMessage (o : Outgoing) (msg : Message) : Option Outgoing :=
  let writeInProgress := !o.writeMsgs.isEmpty
  let o := { o with writeMsgs := o.writeMsgs ++ [msg.encode] }
  if !writeInProgress then o.doWrite else some o

/-- The operation hands the next `n` bytes to the socket. -/
def transfer (o : Outgoing) (n : Nat) : Option (StdString × Outgoing) :=
  match o.writing with
  | none => none
  | some left =>
    if n ≤ left.length then some (left.take n, { o with writing := some (left.drop n) }) else none

/-- The completion handler of the write, `src_jni/remote_interface.cc:325–335`. It comes without an
error when there is nothing left to write, and may come with one at any time. -/
def written (o : Outgoing) (fails : Bool) : Option Outgoing :=
  match o.writing, o.writeMsgs with
  | none, _ => none
  | some left, writeMsgs =>
    if fails then some { o with writing := none }
    else if left ≠ [] then none
    else
      match writeMsgs with
      | [] => none
      | _ :: writeMsgs =>
        let o : Outgoing := ⟨writeMsgs, none⟩
        if !writeMsgs.isEmpty then o.doWrite else some o

/-- A write has failed: messages wait and none is being written. -/
def Failed (o : Outgoing) : Prop := o.writing = none ∧ o.writeMsgs ≠ []

/-- The bytes that are still to be handed to the socket, if no write fails. Those of a queue that
failed are never handed over. -/
inductive Unsent : Outgoing → StdString → Prop
  | idle : Unsent ⟨[], none⟩ []
  | busy (msg : Message) (writeMsgs : List Message) (left : StdString) :
    Unsent ⟨msg :: writeMsgs, some left⟩ (left ++ writeMsgs.flatMap Message.sbuf)
  | failed (writeMsgs : List Message) (h : writeMsgs ≠ []) (bytes : StdString) :
    Unsent ⟨writeMsgs, none⟩ bytes

variable {o : Outgoing} {bytes : StdString}

/-- A message can be delivered at any time, and its bytes come last. -/
theorem Unsent.deliverMessage (h : o.Unsent bytes) (msg : Message) :
    ∃ o', o.deliverMessage msg = some o' ∧ o'.Unsent (bytes ++ msg.encode.sbuf) ∧
      (o'.Failed ↔ o.Failed) := by
  cases h with
  | idle =>
    refine ⟨⟨[msg.encode], some msg.encode.sbuf⟩, rfl, ?_, ?_⟩
    · have := Unsent.busy msg.encode [] msg.encode.sbuf
      simpa using this
    · simp [Failed]
  | busy front writeMsgs left =>
    refine ⟨⟨front :: (writeMsgs ++ [msg.encode]), some left⟩, rfl, ?_, ?_⟩
    · have := Unsent.busy front (writeMsgs ++ [msg.encode]) left
      simpa using this
    · simp [Failed]
  | failed writeMsgs hne =>
    refine ⟨⟨writeMsgs ++ [msg.encode], none⟩, ?_, .failed _ (by simp) _, ?_⟩
    · rw [Outgoing.deliverMessage, List.isEmpty_eq_false_iff.mpr hne]
      rfl
    · simp [Failed, hne]

/-- What is handed over comes first. -/
theorem Unsent.transfer (h : o.Unsent bytes) {n : Nat} {moved : StdString} {o' : Outgoing}
    (hstep : o.transfer n = some (moved, o')) :
    ∃ rest, bytes = moved ++ rest ∧ o'.Unsent rest ∧ ¬ o'.Failed ∧ ¬ o.Failed := by
  cases h with
  | idle => cases hstep
  | busy msg writeMsgs left =>
    simp only [Outgoing.transfer] at hstep
    split_ifs at hstep
    cases hstep
    refine ⟨left.drop n ++ writeMsgs.flatMap Message.sbuf, ?_, .busy _ _ _, ?_, ?_⟩
    · rw [← List.append_assoc, List.take_append_drop]
    · simp [Failed]
    · simp [Failed]
  | failed => cases hstep

/-- The next write begins without a gap. -/
theorem Unsent.written (h : o.Unsent bytes) {o' : Outgoing} (hstep : o.written false = some o') :
    o'.Unsent bytes ∧ ¬ o'.Failed ∧ ¬ o.Failed := by
  cases h with
  | idle => cases hstep
  | busy msg writeMsgs left =>
    by_cases hleft : left = []
    · subst hleft
      cases writeMsgs with
      | nil =>
        cases hstep
        exact ⟨.idle, by simp [Failed], by simp [Failed]⟩
      | cons next writeMsgs =>
        cases hstep
        exact ⟨.busy next writeMsgs next.sbuf, by simp [Failed], by simp [Failed]⟩
    · simp [Outgoing.written, hleft] at hstep
  | failed => cases hstep

theorem Unsent.writeFails (h : o.Unsent bytes) {o' : Outgoing} (hstep : o.written true = some o') :
    o'.Unsent bytes ∧ o'.Failed := by
  cases h with
  | idle => cases hstep
  | busy msg writeMsgs left =>
    cases hstep
    exact ⟨.failed _ (by simp) _, rfl, by simp⟩
  | failed => cases hstep

end Outgoing

/-! ## Both ends -/

/-- A connection in one direction; with the messages delivered to it and the calls that its reader
has made. -/
structure Transmission (σ : Type) where
  out : Outgoing
  reader : ReadState σ
  delivered : List Composed
  calls : List HandlerCall

/-- What can happen. A message may have been encoded before, for another connection. -/
inductive TransmissionEvent
  | deliver (c : Composed) (again : Bool)
  | transfer (n : Nat)
  | written (fails : Bool)
  | read (fails : Bool)

/-- The message that a call hands on. -/
def HandlerCall.message? : HandlerCall → Option Message
  | .received msg => some msg
  | .dropped => none

/-- Every message is taken without an exception. -/
def MessageHandler.Quiet {σ : Type} (H : MessageHandler σ) : Prop :=
  ∀ state msg, (H.onMessageReceived state msg).1 = .returns

namespace Transmission

variable {σ : Type} (H : MessageHandler σ)

/-- A new connection. -/
def start (readMsg : Message) (state : σ) : Transmission σ :=
  ⟨⟨[], none⟩, ⟨.header, readMsg, [], state⟩, [], []⟩

/-- One event, if it can happen. -/
def step (t : Transmission σ) : TransmissionEvent → Option (Unit × Transmission σ)
  | .deliver c again => do
    let out ← t.out.deliverMessage (if again then c.message.encode else c.message)
    return ((), { t with out, delivered := t.delivered ++ [c] })
  | .transfer n => do
    let (moved, out) ← t.out.transfer n
    return ((), { t with out, reader := { t.reader with stream := t.reader.stream ++ moved } })
  | .written fails => do
    let out ← t.out.written fails
    return ((), { t with out })
  | .read fails =>
    let (calls, reader) := H.step t.reader fails
    some ((), { t with reader, calls := t.calls ++ calls })

/-- The messages that the reader has handed on. -/
def received (t : Transmission σ) : List Message := t.calls.filterMap HandlerCall.message?

/-- A message is as the reader finds it: something is written, the header counts the body, no key
begins with a NUL byte and the body is not too long. -/
def Sendable : TransmissionEvent → Prop
  | .deliver c _ => c.WellFramed ∧ c.body.length < 2147483648
  | _ => True

/-- Neither end has met an error that it does not recover from. -/
def Open (t : Transmission σ) : Prop := t.reader.reading ≠ .stopped ∧ ¬ t.out.Failed

/-- What the reader has before it: the bytes of these messages, or the body of the first of them and
the bytes of the others. A part of them may not have been handed to the socket. -/
inductive Ahead (c : ReadState σ) (unsent : StdString) : List Composed → Prop
  | header {todo : List Composed} (reading : c.reading = .header) (sbuf : c.readMsg.sbuf = [])
    (bytes : c.stream ++ unsent = todo.flatMap Composed.bytes) : Ahead c unsent todo
  | body {first : Composed} {todo : List Composed} (reading : c.reading = .body)
    (sbuf : c.readMsg.sbuf = []) (length : c.readMsg.bodyLength.toNat = first.body.length)
    (bytes : c.stream ++ unsent = first.body ++ todo.flatMap Composed.bytes) :
    Ahead c unsent (first :: todo)
  | stopped (reading : c.reading = .stopped) (todo : List Composed) : Ahead c unsent todo

variable {H} {t : Transmission σ} {c : ReadState σ} {unsent : StdString} {todo : List Composed}

/-- A text that is long enough and a beginning of another holds what the other begins with. -/
private theorem exists_prefix {text rest front back : StdString} (h : text ++ rest = front ++ back)
    (hlen : front.length ≤ text.length) : ∃ more, text = front ++ more ∧ more ++ rest = back := by
  obtain ⟨more, rfl⟩ := List.prefix_of_prefix_length_le (List.prefix_append front back)
    (h ▸ List.prefix_append text rest) hlen
  refine ⟨more, rfl, ?_⟩
  rw [List.append_assoc] at h
  exact List.append_cancel_left h

/-- More bytes become part of the stream. -/
theorem Ahead.transfer {moved rest : StdString} (h : Ahead c (moved ++ rest) todo) :
    Ahead { c with stream := c.stream ++ moved } rest todo := by
  cases h with
  | header hreading hsbuf hbytes =>
    exact .header hreading hsbuf (by rw [← hbytes, List.append_assoc])
  | body hreading hsbuf hlength hbytes =>
    exact .body hreading hsbuf hlength (by rw [← hbytes, List.append_assoc])
  | stopped hreading todo =>
    exact .stopped (c := { c with stream := c.stream ++ moved }) hreading todo

/-- Another message is delivered. -/
theorem Ahead.deliver (h : Ahead c unsent todo) (next : Composed) :
    Ahead c (unsent ++ next.bytes) (todo ++ [next]) := by
  cases h with
  | header hreading hsbuf hbytes =>
    refine .header hreading hsbuf ?_
    rw [← List.append_assoc, hbytes, List.flatMap_append, List.flatMap_singleton]
  | @body first todo hreading hsbuf hlength hbytes =>
    rw [List.cons_append]
    refine .body hreading hsbuf hlength ?_
    rw [← List.append_assoc, hbytes, List.flatMap_append, List.flatMap_singleton,
      List.append_assoc]
  | stopped hreading todo => exact .stopped hreading (todo ++ [next])

/-- The header of a message that is as the reader finds it. -/
private theorem bytes_eq {first : Composed} (h : first.WellFramed)
    (hlen : first.body.length < 2147483648) :
    ∃ n : UInt32, n.toNat = first.body.length ∧ first.bytes = snprintf08x n ++ first.body :=
  ⟨_, Composed.toNat_count hlen h.overwritten, first.bytes_of_not_stale h.not_stale⟩

/-- The header arrives, or is waited for: nothing is handed on. -/
theorem Ahead.headerRead (h : Ahead c unsent todo) (hreading : c.reading = .header)
    (hsend : ∀ c ∈ todo, c.WellFramed ∧ c.body.length < 2147483648) :
    (H.headerRead c false).1 = [] ∧ Ahead (H.headerRead c false).2 unsent todo ∧
      (unsent = [] → todo ≠ [] → (H.headerRead c false).2.reading = .body) := by
  cases h with
  | body hbody => rw [hreading] at hbody; cases hbody
  | stopped hstopped => rw [hreading] at hstopped; cases hstopped
  | header _ hsbuf hbytes =>
    rw [MessageHandler.headerRead, if_neg (by decide)]
    by_cases hlen : c.stream.length < headerLength
    · rw [doReadHeader, if_pos hlen]
      refine ⟨rfl, .header hreading hsbuf hbytes, fun hunsent hne ↦ absurd hlen ?_⟩
      obtain ⟨first, todo, rfl⟩ := List.exists_cons_of_ne_nil hne
      have hfirst := first.bytes_of_not_stale (hsend first List.mem_cons_self).1.not_stale
      rw [hunsent, List.append_nil, List.flatMap_cons, hfirst] at hbytes
      rw [hbytes, List.length_append, List.length_append, length_snprintf08x, headerLength]
      omega
    · obtain ⟨first, todo, rfl⟩ : ∃ first rest, todo = first :: rest := by
        refine List.exists_cons_of_ne_nil fun hnil ↦ hlen ?_
        rw [hnil, List.flatMap_nil, List.append_eq_nil_iff] at hbytes
        rw [hbytes.1]
        decide
      obtain ⟨n, hn, hfirst⟩ := bytes_eq (hsend first List.mem_cons_self).1
        (hsend first List.mem_cons_self).2
      rw [List.flatMap_cons, hfirst, List.append_assoc] at hbytes
      obtain ⟨more, hstream, hmore⟩ := exists_prefix hbytes
        ((length_snprintf08x n).trans_le (not_lt.mp hlen))
      rw [hstream, doReadHeader_snprintf08x hsbuf]
      exact ⟨rfl, .body rfl rfl hn hmore, fun _ _ ↦ rfl⟩

/-- A handler that is called when the connection drops leaves the reader in one of two states. -/
private theorem drop_reading (c : ReadState σ) (next : Reading) :
    ((H.drop c next).2.reading = next ∨ (H.drop c next).2.reading = .stopped) ∧
      (H.drop c next).2.readMsg = c.readMsg ∧ (H.drop c next).2.stream = c.stream ∧
      (H.drop c next).1 = [.dropped] := by
  refine ⟨?_, rfl, rfl, rfl⟩
  rw [MessageHandler.drop]
  by_cases h : (H.onConnectionDropped c.state).1 = .returns <;> simp [h]

/-- The body arrives: its message is handed on, and the reader turns to the next header or stops. -/
theorem Ahead.bodyRead (h : Ahead c unsent todo) (hreading : c.reading = .body)
    (hsend : ∀ c ∈ todo, c.WellFramed ∧ c.body.length < 2147483648) :
    ∃ done rest, todo = done ++ rest ∧
      ((H.bodyRead c false).1.filterMap HandlerCall.message?).map Message.key2val =
        done.map (fun c ↦ c.sent.key2val) ∧
      Ahead (H.bodyRead c false).2 unsent rest ∧
      (unsent = [] → H.Quiet → rest = todo.tail ∧ (H.bodyRead c false).2.reading = .header) := by
  cases h with
  | header hheader => rw [hreading] at hheader; cases hheader
  | stopped hstopped => rw [hreading] at hstopped; cases hstopped
  | @body first todo _ hsbuf hlength hbytes =>
    rw [MessageHandler.bodyRead, if_neg (by decide)]
    by_cases hlen : c.stream.length < c.readMsg.bodyLength.toNat
    · refine ⟨[], first :: todo, rfl, ?_, ?_⟩
      · rw [doReadBody, if_pos hlen]
        rfl
      · rw [doReadBody, if_pos hlen]
        refine ⟨Ahead.body hreading hsbuf hlength hbytes, fun hunsent _ ↦ absurd hlen ?_⟩
        rw [hunsent, List.append_nil] at hbytes
        rw [hbytes, hlength, List.length_append]
        omega
    · obtain ⟨more, hstream, hmore⟩ := exists_prefix hbytes (hlength ▸ not_lt.mp hlen)
      have hwell := (hsend first List.mem_cons_self).1
      obtain ⟨msg, hread, hempty, hvalues⟩ : ∃ msg : Message,
          doReadBody c.readMsg c.stream = .ok (msg, more) ∧ msg.sbuf = [] ∧
            msg.key2val = first.sent.key2val := by
        refine ⟨{ c.readMsg.receive first.body with
          sbuf := [], key2val := first.sent.key2val }, ?_, rfl, rfl⟩
        rw [doReadBody, if_neg hlen, hstream, hlength, List.take_left, List.drop_left]
        simp only [decodeBody, receive, clearMsgContent, hsbuf, List.nil_append,
          first.decodeEntries_body hwell.keys, Option.map_some]
        rfl
      have hcalls : [msg.key2val] = [first].map fun c ↦ c.sent.key2val :=
        congrArg (fun values ↦ [values]) hvalues
      refine ⟨[first], todo, rfl, ?_⟩
      simp only [hread]
      -- the handler decides whether there is a next header
      rcases hcalled : H.onMessageReceived c.state msg with ⟨ending, state⟩
      have hquiet (h : H.Quiet) : ending = .returns := by
        have := h c.state msg
        rwa [hcalled] at this
      cases ending with
      | returns => exact ⟨hcalls, .header rfl hempty hmore, fun _ _ ↦ ⟨rfl, rfl⟩⟩
      | throws =>
        obtain ⟨hdropped, hmsg, hstr, hdrop⟩ :=
          drop_reading (H := H) ⟨.body, msg, more, state⟩ .header
        refine ⟨?_, ?_, fun _ h ↦ by cases hquiet h⟩
        · simp only [hdrop]
          exact hcalls
        · rcases hdropped with hheader | hstopped
          · exact .header hheader (hmsg ▸ hempty) (hstr ▸ hmore)
          · exact .stopped hstopped _
      | escapes => exact ⟨hcalls, .stopped rfl _, fun _ h ↦ by cases hquiet h⟩

/-- The outstanding read ends: the messages that are handed on are the next ones. -/
theorem Ahead.read (h : Ahead c unsent todo)
    (hsend : ∀ c ∈ todo, c.WellFramed ∧ c.body.length < 2147483648) (fails : Bool) :
    ∃ done rest, todo = done ++ rest ∧
      ((H.step c fails).1.filterMap HandlerCall.message?).map Message.key2val =
        done.map (fun c ↦ c.sent.key2val) ∧
      Ahead (H.step c fails).2 unsent rest := by
  have hfails : ((H.drop c .stopped).1.filterMap HandlerCall.message?).map Message.key2val = [] ∧
      Ahead (H.drop c .stopped).2 unsent todo := by
    obtain ⟨hdropped, -, -, hcalls⟩ := drop_reading (H := H) c .stopped
    rw [or_self] at hdropped
    exact ⟨by rw [hcalls]; rfl, .stopped hdropped _⟩
  rw [MessageHandler.step]
  cases hreading : c.reading with
  | header =>
    refine ⟨[], todo, rfl, ?_⟩
    cases fails with
    | true => exact hfails
    | false =>
      obtain ⟨hcalls, hahead, -⟩ := h.headerRead (H := H) hreading hsend
      rw [hcalls]
      exact ⟨rfl, hahead⟩
  | body =>
    cases fails with
    | true => exact ⟨[], todo, rfl, hfails⟩
    | false =>
      obtain ⟨done, rest, htodo, hcalls, hahead, -⟩ := h.bodyRead (H := H) hreading hsend
      exact ⟨done, rest, htodo, hcalls, hahead⟩
  | stopped => exact ⟨[], todo, rfl, rfl, h⟩

/-! ## Runs -/

/-- What has been handed on are the first of the messages delivered; the bytes of the others are
on their way, in order. -/
structure Inv (t : Transmission σ) : Prop where
  sendable : ∀ c ∈ t.delivered, c.WellFramed ∧ c.body.length < 2147483648
  ahead : ∃ done todo unsent, t.delivered = done ++ todo ∧
    t.received.map Message.key2val = done.map (fun c ↦ c.sent.key2val) ∧
    t.out.Unsent unsent ∧ Ahead t.reader unsent todo

theorem inv_start {readMsg : Message} (hsbuf : readMsg.sbuf = []) (state : σ) :
    (start readMsg state).Inv where
  sendable := by simp [start]
  ahead := ⟨[], [], [], rfl, rfl, .idle, .header rfl hsbuf rfl⟩

private theorem encode_encode (msg : Message) : msg.encode.encode = msg.encode := by
  have henc : msg.encode.encoded = true := by
    rw [encode]
    split_ifs with h
    · exact h
    · rfl
  rw [encode, if_pos henc]

private theorem encode_again (c : Composed) (again : Bool) :
    (if again then c.message.encode else c.message).encode = c.message.encode := by
  cases again with
  | true => exact encode_encode c.message
  | false => rfl

theorem Inv.deliver (h : t.Inv) {c : Composed} (hc : c.WellFramed ∧ c.body.length < 2147483648)
    (again : Bool) :
    ∃ t', t.step H (.deliver c again) = some ((), t') ∧ t'.Inv ∧ (t'.Open ↔ t.Open) ∧
      t'.delivered = t.delivered ++ [c] := by
  obtain ⟨done, todo, unsent, hdelivered, hreceived, hunsent, hahead⟩ := h.ahead
  obtain ⟨out, hout, hunsent', hfailed⟩ :=
    hunsent.deliverMessage (if again then c.message.encode else c.message)
  rw [encode_again] at hunsent'
  refine ⟨{ t with out, delivered := t.delivered ++ [c] }, ?_, ⟨?_, ?_⟩, ?_, rfl⟩
  · rw [step, hout]
    rfl
  · intro x hx
    rcases List.mem_append.mp hx with hx | hx
    · exact h.sendable x hx
    · exact List.mem_singleton.mp hx ▸ hc
  · exact ⟨done, todo ++ [c], unsent ++ c.bytes, by rw [hdelivered, List.append_assoc], hreceived,
      hunsent', hahead.deliver c⟩
  · exact and_congr_right fun _ ↦ not_congr hfailed

/-- Whatever happens keeps the invariant. -/
theorem Inv.step (h : t.Inv) {event : TransmissionEvent} (hevent : Sendable event) {r : Unit}
    {t' : Transmission σ} (hstep : t.step H event = some (r, t')) : t'.Inv := by
  obtain ⟨done, todo, unsent, hdelivered, hreceived, hunsent, hahead⟩ := h.ahead
  cases event with
  | deliver c again =>
    obtain ⟨t₁, h₁, hinv, -⟩ := h.deliver (H := H) hevent again
    rw [h₁] at hstep
    cases hstep
    exact hinv
  | transfer n =>
    obtain ⟨⟨moved, out⟩, hout, hrest⟩ := Option.bind_eq_some_iff.mp hstep
    cases hrest
    obtain ⟨rest, rfl, hunsent', -⟩ := hunsent.transfer hout
    exact ⟨h.sendable, done, todo, rest, hdelivered, hreceived, hunsent', hahead.transfer⟩
  | written fails =>
    obtain ⟨out, hout, hrest⟩ := Option.bind_eq_some_iff.mp hstep
    cases hrest
    refine ⟨h.sendable, done, todo, unsent, hdelivered, hreceived, ?_, hahead⟩
    cases fails with
    | true => exact (hunsent.writeFails hout).1
    | false => exact (hunsent.written hout).1
  | read fails =>
    cases hstep
    have hsend : ∀ c ∈ todo, c.WellFramed ∧ c.body.length < 2147483648 := fun c hc ↦
      h.sendable c (hdelivered ▸ List.mem_append_right _ hc)
    obtain ⟨now, rest, rfl, hcalls, hahead'⟩ := hahead.read (H := H) hsend fails
    refine ⟨h.sendable, done ++ now, rest, unsent, ?_, ?_, hunsent, hahead'⟩
    · rw [hdelivered, List.append_assoc]
    · rw [List.map_append, ← hreceived, ← hcalls, received, List.filterMap_append,
        List.map_append]
      rfl

theorem inv_of_run {readMsg : Message} (hsbuf : readMsg.sbuf = []) {state : σ}
    {events : List TransmissionEvent}
    (hrun : Run (Transmission.step H) (fun _ event _ ↦ Sendable event) (start readMsg state) events
      t) : t.Inv := by
  refine hrun.invariant Inv (fun s event r s' hinv hevent hstep ↦ ?_) (inv_start hsbuf state)
  exact hinv.step hevent hstep

/-- Takes every message and does nothing. -/
def takesAll : MessageHandler Unit where
  onMessageReceived state _ := (.returns, state)
  onConnectionDropped state := (.returns, state)

/-- The operations go on and end without an error. -/
def GoesOn : TransmissionEvent → Prop
  | .transfer _ | .written false | .read false => True
  | _ => False

theorem GoesOn.sendable {event : TransmissionEvent} (h : GoesOn event) : Sendable event := by
  cases event with
  | deliver => cases h
  | transfer => trivial
  | written => trivial
  | read => trivial

/-- The operation writes all that is left. -/
private theorem step_transfer (writeMsgs : List Message) (left : StdString) (reader : ReadState σ)
    (delivered : List Composed) (calls : List HandlerCall) :
    (⟨⟨writeMsgs, some left⟩, reader, delivered, calls⟩ : Transmission σ).step H
        (.transfer left.length) =
      some ((), ⟨⟨writeMsgs, some []⟩, { reader with stream := reader.stream ++ left }, delivered,
        calls⟩) := by
  simp [Transmission.step, Outgoing.transfer]

/-- All that waits is handed to the socket. -/
private theorem exists_flush (hfailed : ¬ t.out.Failed) {unsent : StdString}
    (hunsent : t.out.Unsent unsent) :
    ∃ events t', Run (Transmission.step H) (fun _ event _ ↦ GoesOn event) t events t' ∧
      t'.out = ⟨[], none⟩ ∧ t'.delivered = t.delivered ∧ t'.calls = t.calls ∧
      t'.reader.reading = t.reader.reading := by
  obtain ⟨out, reader, delivered, calls⟩ := t
  cases hunsent with
  | idle => exact ⟨[], _, .nil _, rfl, rfl, rfl, rfl⟩
  | failed writeMsgs hne => exact absurd ⟨rfl, hne⟩ hfailed
  | busy msg writeMsgs left =>
    clear hfailed
    have htransfer := step_transfer (H := H) (msg :: writeMsgs) left reader delivered calls
    induction writeMsgs generalizing msg left reader with
    | nil =>
      exact ⟨[.transfer left.length, .written false], _,
        .cons htransfer trivial (.cons (r := ()) rfl trivial (.nil _)), rfl, rfl, rfl, rfl⟩
    | cons next writeMsgs ih =>
      -- the handler of the operation begins the next one
      obtain ⟨events, t', hrun, hout, hdelivered, hcalls, hreading⟩ := ih
        { reader with stream := reader.stream ++ left } next next.sbuf (step_transfer _ _ _ _ _)
      exact ⟨.transfer left.length :: .written false :: events, t',
        .cons htransfer trivial (.cons (r := ()) rfl trivial hrun), hout, hdelivered, hcalls,
        hreading⟩

/-- After a successful read. -/
def afterRead (H : MessageHandler σ) (t : Transmission σ) : Transmission σ :=
  { t with reader := (H.step t.reader false).2, calls := t.calls ++ (H.step t.reader false).1 }

theorem received_afterRead (t : Transmission σ) :
    (t.afterRead H).received =
      t.received ++ (H.step t.reader false).1.filterMap HandlerCall.message? :=
  List.filterMap_append

/-- All that the socket has taken is read. -/
private theorem exists_drain (hquiet : H.Quiet) {done : List Composed}
    (hsend : ∀ c ∈ todo, c.WellFramed ∧ c.body.length < 2147483648)
    (hdelivered : t.delivered = done ++ todo)
    (hreceived : t.received.map Message.key2val = done.map (fun c ↦ c.sent.key2val))
    (hahead : Ahead t.reader [] todo) (hreading : t.reader.reading ≠ .stopped) :
    ∃ events t', Run (Transmission.step H) (fun _ event _ ↦ GoesOn event) t events t' ∧
      t'.delivered = t.delivered ∧
      t'.received.map Message.key2val = t.delivered.map (fun c ↦ c.sent.key2val) := by
  induction todo generalizing t done with
  | nil => exact ⟨[], t, .nil t, rfl, by rw [hreceived, hdelivered, List.append_nil]⟩
  | cons first rest ih =>
    have hbody : ∀ t : Transmission σ, t.delivered = done ++ first :: rest →
        t.received.map Message.key2val = done.map (fun c ↦ c.sent.key2val) →
        Ahead t.reader [] (first :: rest) → t.reader.reading = .body →
        ∃ events t', Run (Transmission.step H) (fun _ event _ ↦ GoesOn event) t events t' ∧
          t'.delivered = t.delivered ∧
          t'.received.map Message.key2val = t.delivered.map (fun c ↦ c.sent.key2val) := by
      intro t hdelivered hreceived hahead hreading
      obtain ⟨now, left, hsplit, hcalls, hahead', hnext⟩ :=
        hahead.bodyRead (H := H) hreading hsend
      obtain ⟨rfl, hheader⟩ := hnext rfl hquiet
      have hnow : now ++ left = [first] ++ left := hsplit.symm
      obtain rfl : now = [first] := List.append_cancel_right hnow
      have hstep : H.step t.reader false = H.bodyRead t.reader false := by
        rw [MessageHandler.step, hreading]
      have hdelivered' : (t.afterRead H).delivered = (done ++ [first]) ++ left := by
        rw [afterRead, hdelivered, List.append_assoc]
        rfl
      have hreceived' : (t.afterRead H).received.map Message.key2val =
          (done ++ [first]).map (fun c ↦ c.sent.key2val) := by
        rw [received_afterRead, List.map_append, hreceived, hstep, hcalls, List.map_append]
      obtain ⟨events, t', hrun, hsame, hall⟩ := ih
        (fun c hc ↦ hsend c (List.mem_cons_of_mem _ hc)) hdelivered' hreceived'
        (by rw [afterRead, hstep]; exact hahead')
        (by rw [afterRead, hstep, hheader]; decide)
      exact ⟨.read false :: events, t', .cons (r := ()) rfl trivial hrun, hsame, hall⟩
    cases hcase : t.reader.reading with
    | stopped => exact absurd hcase hreading
    | body => exact hbody t hdelivered hreceived hahead hcase
    | header =>
      obtain ⟨hcalls, hahead', hnext⟩ := hahead.headerRead (H := H) hcase hsend
      have hstep : H.step t.reader false = H.headerRead t.reader false := by
        rw [MessageHandler.step, hcase]
      have hreceived' : (t.afterRead H).received.map Message.key2val =
          done.map (fun c ↦ c.sent.key2val) := by
        rw [received_afterRead, hstep, hcalls, List.filterMap_nil, List.append_nil, hreceived]
      obtain ⟨events, t', hrun, hsame, hall⟩ := hbody (t.afterRead H) hdelivered hreceived'
        (by rw [afterRead, hstep]; exact hahead')
        (by rw [afterRead, hstep]; exact hnext rfl (List.cons_ne_nil first rest))
      exact ⟨.read false :: events, t', .cons (r := ()) rfl trivial hrun, hsame, hall⟩

end Transmission

end Vuknob
