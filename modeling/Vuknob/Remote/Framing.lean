import Vuknob.Remote.Message

/-!
# Message framing

A sender acquires a message, sets values and encodes it; the bytes of its messages follow
each other on one stream, `RemoteInterface::Context::acquire_message` and
`MessageHandler::deliver_message`. The reader, `src_jni/remote_interface.cc:272–317`, takes
a header and then as many bytes as the header says, again and again, into the one message
`read_msg`. What is not consumed by decoding stays in its buffer.
-/

namespace Vuknob

namespace Message

/-- What `acquire_message` hands out: empty in everything but `encoded` and `bodyLength`,
which keep an indeterminate or an earlier value, `src_jni/remote_interface.cc:240–258`. -/
structure Fresh (msg : Message) : Prop where
  sbuf_eq : msg.sbuf = []
  data2send_eq : msg.data2send = 0
  key2val_eq : msg.key2val = ∅

/-- `new Message(this)`, `src_jni/remote_interface.cc:56`. -/
def newMessage (encoded : Bool) (bodyLength : UInt32) : Message :=
  ⟨encoded, bodyLength, [], 0, false, ∅⟩

theorem fresh_newMessage (encoded : Bool) (bodyLength : UInt32) :
    (newMessage encoded bodyLength).Fresh := ⟨rfl, rfl, rfl⟩

/-- The characters that `set_value` lets through. -/
def Acceptable (call : StdString × StdString) : Prop :=
  59 ∉ call.1 ∧ 61 ∉ call.1 ∧ 59 ∉ call.2 ∧ 61 ∉ call.2

instance (call : StdString × StdString) : Decidable (Acceptable call) := by
  unfold Acceptable
  infer_instance

/-- Calls without separators are accepted. -/
theorem exists_setValues {calls : List (StdString × StdString)} (h : ∀ call ∈ calls, Acceptable call)
    (msg : Message) : ∃ msg', msg.setValues calls = .ok msg' := by
  induction calls generalizing msg with
  | nil => exact ⟨msg, rfl⟩
  | cons call calls ih =>
    rw [List.forall_mem_cons] at h
    obtain ⟨h₁, h₂, h₃, h₄⟩ := h.1
    have hset : ∃ msg₁, msg.setValue call.1 call.2 = .ok msg₁ := by
      rw [setValue, if_neg h₁, if_neg h₂, if_neg h₃, if_neg h₄]
      exact ⟨_, rfl⟩
    obtain ⟨msg₁, hset⟩ := hset
    obtain ⟨msg', hrest⟩ := ih h.2 msg₁
    exact ⟨msg', by rw [setValues, hset]; exact hrest⟩

/-- Of the entries written to a map, those that are overwritten are not in its body. -/
theorem length_bodyText_insertMany (es : List (StdString × StdString)) :
    (bodyText es).length = (bodyText (Library.overwritten es)).length +
      (bodyText ((∅ : StringMap).insertMany es).toList).length := by
  have hlength {xs ys : List (StdString × StdString)} (h : xs.Perm ys) :
      (bodyText xs).length = (bodyText ys).length := (h.flatMap_right _).length_eq
  rw [← hlength (Library.overwritten_append_surviving_perm es),
    hlength (Library.toList_insertMany_perm es), bodyText, List.flatMap_append, List.length_append]
  rfl

end Message

open Message

/-- A message as its sender leaves it before `encode`: freshly acquired, then a sequence of
accepted calls of `set_value`. -/
structure Composed where
  acquired : Message
  fresh : acquired.Fresh
  calls : List (StdString × StdString)
  message : Message
  accepted : acquired.setValues calls = .ok message

namespace Composed

/-- The message after calls without separators. -/
def ofCalls (encoded : Bool) (calls : List (StdString × StdString))
    (h : ∀ call ∈ calls, Acceptable call) : Composed where
  acquired := newMessage encoded 0
  fresh := fresh_newMessage encoded 0
  calls := calls
  message :=
    { newMessage encoded 0 with
      encoded := if calls = [] then encoded else false
      data2send := UInt32.ofNat (bodyText (calls.map encodeEntry)).length
      key2val := (∅ : StringMap).insertMany (calls.map encodeEntry) }
  accepted := by
    obtain ⟨msg, hmsg⟩ := exists_setValues h (newMessage encoded 0)
    rw [hmsg, setValues_eq hmsg]
    simp [newMessage]

variable (c : Composed)

/-- The entries that the calls write. -/
def entries : List (StdString × StdString) := c.calls.map encodeEntry

/-- The bytes that `encode` leaves in the buffer for the socket. -/
def bytes : StdString := c.message.encode.sbuf

/-- The body of the message. -/
def body : StdString := bodyText c.message.key2val.toList

/-- `encode` writes nothing: a flag of an earlier use says that it already has. -/
def Stale : Prop := c.calls = [] ∧ c.acquired.encoded = true

instance : Decidable c.Stale := by
  unfold Stale
  infer_instance

theorem message_eq :
    c.message = { c.acquired with
      encoded := if c.calls = [] then c.acquired.encoded else false
      data2send := UInt32.ofNat (bodyText c.entries).length
      key2val := (∅ : StringMap).insertMany c.entries } := by
  rw [setValues_eq c.accepted, c.fresh.data2send_eq, c.fresh.key2val_eq, UInt32.zero_add]
  rfl

theorem key2val_eq : c.message.key2val = (∅ : StringMap).insertMany c.entries := by
  rw [message_eq]

theorem encoded_iff : c.message.encoded = true ↔ c.Stale := by
  rw [message_eq, Stale]
  simp

theorem bytes_of_stale (h : c.Stale) : c.bytes = [] := by
  rw [bytes, encode, if_pos (c.encoded_iff.mpr h), message_eq]
  exact c.fresh.sbuf_eq

theorem bytes_of_not_stale (h : ¬ c.Stale) :
    c.bytes = snprintf08x (UInt32.ofNat (bodyText c.entries).length) ++ c.body := by
  have hsbuf : c.message.sbuf = [] := by
    rw [message_eq]
    exact c.fresh.sbuf_eq
  have hcount : c.message.data2send = UInt32.ofNat (bodyText c.entries).length := by
    rw [message_eq]
  rw [bytes, encode, if_neg (fun he ↦ h (c.encoded_iff.mp he)), body]
  simp only [hsbuf, hcount, List.nil_append]

/-- The count covers the body and every overwritten entry. -/
theorem length_bodyText_entries :
    (bodyText c.entries).length =
      (bodyText (Library.overwritten c.entries)).length + c.body.length := by
  rw [body, key2val_eq]
  exact length_bodyText_insertMany c.entries

/-- An encoded and delivered message can be acquired again. -/
theorem fresh_recycle (h : (bodyText c.entries).length + headerLength < 2 ^ 32) :
    c.message.encode.recycle.Fresh := by
  refine ⟨?_, rfl, rfl⟩
  show c.bytes.drop _ = []
  by_cases hs : c.Stale
  · rw [c.bytes_of_stale hs, List.drop_nil]
  · have hcount : c.message.encode.data2send.toNat = (bodyText c.entries).length + headerLength := by
      rw [encode, if_neg (fun he ↦ hs (c.encoded_iff.mp he)), message_eq]
      simp only [← UInt32.ofNat_add]
      exact UInt32.toNat_ofNat_of_lt' h
    have hlen : c.bytes.length = headerLength + c.body.length := by
      rw [c.bytes_of_not_stale hs, List.length_append, length_snprintf08x]
      rfl
    have hbody := c.length_bodyText_entries
    rw [List.drop_eq_nil_iff, hcount]
    split
    · omega
    · exact le_rfl

end Composed

/-! ## The reader -/

/-- Why no further message is read: the rest of one has not arrived, or `decode_string` ran
past the end of its array. -/
inductive ReadStop
  | waiting
  | undefined
  deriving DecidableEq

/-- `do_read_header`, `src_jni/remote_interface.cc:272–287`. -/
def doReadHeader (readMsg : Message) (stream : StdString) :
    Except ReadStop (Message × StdString) :=
  if stream.length < headerLength then .error .waiting
  else .ok ((readMsg.receive (stream.take headerLength)).decodeHeader, stream.drop headerLength)

/-- `do_read_body`, `src_jni/remote_interface.cc:289–317`. -/
def doReadBody (readMsg : Message) (stream : StdString) : Except ReadStop (Message × StdString) :=
  let length := readMsg.bodyLength.toNat
  if stream.length < length then .error .waiting
  else
    match (readMsg.receive (stream.take length)).decodeBody with
    | none => .error .undefined
    | some msg => .ok (msg, stream.drop length)

/-- A message as the reader hands it on: the bytes of its body and what it found in them. -/
structure Received where
  body : StdString
  key2val : StringMap

/-- A header and the body it announces. -/
def readMessage (readMsg : Message) (stream : StdString) :
    Except ReadStop (Received × Message × StdString) :=
  match doReadHeader readMsg stream with
  | .error stop => .error stop
  | .ok (msg, rest) =>
    match doReadBody msg rest with
    | .error stop => .error stop
    | .ok (msg', rest') => .ok (⟨rest.take msg.bodyLength.toNat, msg'.key2val⟩, msg', rest')

private theorem length_of_doReadHeader {readMsg msg : Message} {stream rest : StdString}
    (h : doReadHeader readMsg stream = .ok (msg, rest)) : rest.length < stream.length := by
  rw [doReadHeader] at h
  split at h
  · cases h
  · next hlen =>
    cases h
    rw [List.length_drop]
    have : 0 < headerLength := by decide
    omega

private theorem length_of_doReadBody {readMsg msg : Message} {stream rest : StdString}
    (h : doReadBody readMsg stream = .ok (msg, rest)) : rest.length ≤ stream.length := by
  simp only [doReadBody] at h
  split at h
  · cases h
  · split at h
    · cases h
    · cases h
      rw [List.length_drop]
      exact Nat.sub_le _ _

theorem length_of_readMessage {readMsg msg : Message} {stream rest : StdString} {r : Received}
    (h : readMessage readMsg stream = .ok (r, msg, rest)) : rest.length < stream.length := by
  rw [readMessage] at h
  split at h
  · cases h
  · next hheader =>
    split at h
    · cases h
    · next hbody =>
      cases h
      exact Nat.lt_of_le_of_lt (length_of_doReadBody hbody) (length_of_doReadHeader hheader)

/-- The reader on a stream: the messages it hands on, what it leaves unread, and why. -/
def readLoop (readMsg : Message) (stream : StdString) : List Received × StdString × ReadStop :=
  match h : readMessage readMsg stream with
  | .error stop => ([], stream, stop)
  | .ok (r, msg, rest) =>
    have := length_of_readMessage h
    let (rs, unread, stop) := readLoop msg rest
    (r :: rs, unread, stop)
termination_by stream.length

theorem readLoop_of_error {readMsg : Message} {stream : StdString} {stop : ReadStop}
    (h : readMessage readMsg stream = .error stop) : readLoop readMsg stream = ([], stream, stop) := by
  rw [readLoop]
  split
  · next h' => rw [h] at h'; cases h'; rfl
  · next h' => rw [h] at h'; cases h'

theorem readLoop_of_ok {readMsg msg : Message} {stream rest : StdString} {r : Received}
    (h : readMessage readMsg stream = .ok (r, msg, rest)) :
    readLoop readMsg stream =
      (r :: (readLoop msg rest).1, (readLoop msg rest).2.1, (readLoop msg rest).2.2) := by
  rw [readLoop]
  split
  · next h' => rw [h] at h'; cases h'
  · next h' => rw [h] at h'; cases h'; rfl

theorem doReadHeader_snprintf08x {readMsg : Message} (hsbuf : readMsg.sbuf = [])
    (n : UInt32) (text : StdString) :
    doReadHeader readMsg (snprintf08x n ++ text) =
      .ok ({ readMsg.receive (snprintf08x n) with sbuf := [], bodyLength := n }, text) := by
  have hlen : ¬ (snprintf08x n ++ text).length < headerLength := by
    simp [headerLength]
  have hdrop : (snprintf08x n ++ text).drop headerLength = text :=
    List.drop_left' (length_snprintf08x n)
  have htake : (snprintf08x n ++ text).take headerLength = snprintf08x n :=
    List.take_left' (length_snprintf08x n)
  rw [doReadHeader, if_neg hlen, hdrop, htake,
    decodeHeader_snprintf08x _ n (by simp [receive, hsbuf])]

/-- A header hands the bytes that it announces, and no more, to `decode_body`. -/
theorem readMessage_snprintf08x {readMsg : Message} (hsbuf : readMsg.sbuf = []) (n : UInt32)
    (text : StdString) (hn : n.toNat ≤ text.length) {key2val : StringMap} {unread : StdString}
    (hdecode : decodeEntries (getline 61 (text.take n.toNat)) ∅ = some (key2val, unread)) :
    readMessage readMsg (snprintf08x n ++ text) =
      .ok (⟨text.take n.toNat, key2val⟩,
        { readMsg.receive (snprintf08x n) with
          sbuf := unread, bodyLength := n, key2val := key2val },
        text.drop n.toNat) := by
  simp only [readMessage, doReadHeader_snprintf08x hsbuf, doReadBody, not_lt.mpr hn, if_false,
    decodeBody, receive, clearMsgContent, List.nil_append, hdecode, Option.map_some]

/-- A header that announces more bytes than there are keeps the reader waiting. -/
theorem readMessage_snprintf08x_of_lt {readMsg : Message} (hsbuf : readMsg.sbuf = []) (n : UInt32)
    (text : StdString) (hn : text.length < n.toNat) :
    readMessage readMsg (snprintf08x n ++ text) = .error .waiting := by
  simp only [readMessage, doReadHeader_snprintf08x hsbuf, doReadBody, hn, if_true]

/-- A message that is read lies within the stream and has been through `decode_body`. -/
theorem of_readMessage_snprintf08x {readMsg msg : Message} (hsbuf : readMsg.sbuf = [])
    {n : UInt32} {text rest : StdString} {r : Received}
    (h : readMessage readMsg (snprintf08x n ++ text) = .ok (r, msg, rest)) :
    n.toNat ≤ text.length ∧
      decodeEntries (getline 61 (text.take n.toNat)) ∅ = some (msg.key2val, msg.sbuf) := by
  simp only [readMessage, doReadHeader_snprintf08x hsbuf, doReadBody] at h
  by_cases hn : text.length < n.toNat
  · simp [hn] at h
  · refine ⟨not_lt.mp hn, ?_⟩
    simp only [hn, if_false, decodeBody, receive, clearMsgContent, List.nil_append] at h
    cases hdecode : decodeEntries (getline 61 (text.take n.toNat)) ∅ with
    | none => simp [hdecode] at h
    | some result =>
      simp only [hdecode, Option.map_some, Except.ok.injEq, Prod.mk.injEq] at h
      rw [← h.2.1]

/-! ## Splitting the stream -/

/-- When the length in the header is right and the reader finds the whole message in the
body: something makes `encode` write, the calls whose key is set again later count for a
multiple of `2 ^ 32` bytes (for none, when there are none), and no key begins with a NUL
byte. -/
structure Composed.WellFramed (c : Composed) : Prop where
  not_stale : ¬ c.Stale
  overwritten : 2 ^ 32 ∣ (bodyText (Library.overwritten c.entries)).length
  keys : ∀ call ∈ c.calls, call.1.head? ≠ some 0

/-- The message that was sent: its body, and the value set last for each key, as strings
come out of `decode_string`. -/
def Composed.sent (c : Composed) : Received where
  body := c.bytes.drop headerLength
  key2val := (∅ : StringMap).insertMany
    (c.calls.map (Prod.map Serialize.transmitted Serialize.transmitted))

/-- Every header tells the number of bytes behind it, and the reader splits the stream of
all the messages into these messages. -/
def Framed (readMsg : Message) (cs : List Composed) : Prop :=
  (∀ c ∈ cs, (sscanf08x (c.bytes.take headerLength)).map UInt32.toNat =
    some (c.bytes.drop headerLength).length) ∧
  readLoop readMsg (cs.flatMap Composed.bytes) = (cs.map Composed.sent, [], .waiting)

namespace Composed

variable {c : Composed}

theorem readable_encodeEntry {call : StdString × StdString}
    (h : call.1.head? ≠ some 0) : Readable (encodeEntry call) where
  key_ne := fun hnil ↦ h (Serialize.encodeString_eq_nil_iff.mp hnil)
  key_sep := fun hmem ↦ (Serialize.mem_encodeString hmem).1 rfl
  val_sep := fun hmem ↦ (Serialize.mem_encodeString hmem).2.1 rfl
  key_decode := by
    rw [encodeEntry, Prod.map_fst, Serialize.decodeString_encodeString,
      Serialize.decoded_encodeString]
  val_decode := by
    rw [encodeEntry, Prod.map_snd, Serialize.decodeString_encodeString,
      Serialize.decoded_encodeString]

theorem exists_call_of_mem_toList {e : StdString × StdString}
    (he : e ∈ c.message.key2val.toList) : ∃ call ∈ c.calls, encodeEntry call = e := by
  rw [key2val_eq] at he
  have := Library.mem_of_mem_surviving ((Library.toList_insertMany_perm c.entries).mem_iff.mp he)
  exact List.mem_map.mp this

/-- `decode_body` on the body of a message that holds no empty key. -/
theorem decodeEntries_body (h : ∀ call ∈ c.calls, call.1.head? ≠ some 0) :
    decodeEntries (getline 61 c.body) ∅ =
      some ((∅ : StringMap).insertMany
        (c.calls.map (Prod.map Serialize.transmitted Serialize.transmitted)), []) := by
  have hreadable : ∀ e ∈ c.message.key2val.toList, Readable e := by
    intro e he
    obtain ⟨call, hcall, rfl⟩ := exists_call_of_mem_toList he
    exact readable_encodeEntry (h call hcall)
  have hinj : ∀ a ∈ c.entries.map Prod.fst, ∀ b ∈ c.entries.map Prod.fst,
      Serialize.decoded a = Serialize.decoded b → a = b := by
    intro a ha b hb hab
    simp only [entries, List.map_map, List.mem_map, Function.comp, encodeEntry,
      Prod.map_fst] at ha hb
    obtain ⟨ca, -, rfl⟩ := ha
    obtain ⟨cb, -, rfl⟩ := hb
    rw [Serialize.decoded_encodeString, Serialize.decoded_encodeString] at hab
    exact Serialize.encodeString_inj.mpr hab
  have hcalls : c.entries.map (Prod.map Serialize.decoded Serialize.decoded) =
      c.calls.map (Prod.map Serialize.transmitted Serialize.transmitted) := by
    rw [entries, List.map_map]
    refine List.map_congr_left fun call _ ↦ ?_
    simp [encodeEntry, Prod.map]
  rw [body, decodeEntries_bodyText hreadable, key2val_eq,
    Library.insertMany_map_toList Serialize.decoded Serialize.decoded hinj, hcalls]

/-- An empty key comes first in the body, and nothing is read from it. -/
theorem exists_body_of_emptyKey {call : StdString × StdString} (hcall : call ∈ c.calls)
    (h : call.1.head? = some 0) :
    ∃ rest, decodeEntries (getline 61 c.body) ∅ = some (∅, rest) := by
  have hkey : ([] : StdString) ∈ c.entries.map Prod.fst := by
    rw [entries, List.map_map, List.mem_map]
    exact ⟨call, hcall, Serialize.encodeString_eq_nil_iff.mpr h⟩
  have hmem : ([] : StdString) ∈ c.message.key2val := by
    rw [key2val_eq, Std.ExtTreeMap.mem_insertMany_list]
    simp only [List.contains_eq_mem, decide_eq_true_eq]
    exact .inr hkey
  obtain ⟨value, hvalue⟩ := Option.isSome_iff_exists.mp
    (Std.ExtTreeMap.mem_iff_isSome_getElem?.mp hmem)
  have hlist := Std.ExtTreeMap.mem_toList_iff_getElem?_eq_some.mpr hvalue
  obtain ⟨front, back, hsplit⟩ := List.append_of_mem hlist
  have hfront : front = [] := by
    have hord := c.message.key2val.ordered_keys_toList
    rw [hsplit, List.pairwise_append] at hord
    rw [List.eq_nil_iff_forall_not_mem]
    intro e he
    have hlt : compare e.1 [] = .lt := hord.2.2 e he _ List.mem_cons_self
    cases hkey : e.1 with
    | nil =>
      rw [hkey] at hlt
      cases hlt
    | cons c s =>
      rw [hkey] at hlt
      cases hlt
  rw [body, hsplit, hfront, List.nil_append, bodyText_cons]
  exact ⟨_, decodeEntries_emptyKey _ ∅⟩

private theorem drop_bytes (h : ¬ c.Stale) : c.bytes.drop headerLength = c.body := by
  rw [c.bytes_of_not_stale h]
  exact List.drop_left' (length_snprintf08x _)

/-- The count of the header is the length of the body exactly when something is written and
the overwritten entries do not show in 32 bits. -/
theorem header_eq_iff (hbody : c.body.length < 2 ^ 31) :
    (sscanf08x (c.bytes.take headerLength)).map UInt32.toNat =
        some (c.bytes.drop headerLength).length ↔
      ¬ c.Stale ∧ 2 ^ 32 ∣ (bodyText (Library.overwritten c.entries)).length := by
  by_cases hs : c.Stale
  · rw [c.bytes_of_stale hs]
    simp only [hs, not_true, false_and, iff_false]
    decide
  · have htake : c.bytes.take headerLength =
        snprintf08x (UInt32.ofNat (bodyText c.entries).length) := by
      rw [c.bytes_of_not_stale hs]
      exact List.take_left' (length_snprintf08x _)
    rw [htake, drop_bytes hs, sscanf08x_snprintf08x, Option.map_some, Option.some.injEq,
      UInt32.toNat_ofNat', c.length_bodyText_entries]
    simp only [hs, not_false_eq_true, true_and]
    omega

/-- When the count is right, the reader takes exactly the bytes of the message. -/
theorem readMessage_bytes {readMsg : Message} (hsbuf : readMsg.sbuf = []) (hs : ¬ c.Stale)
    (hn : (UInt32.ofNat (bodyText c.entries).length).toNat = c.body.length) (rest : StdString)
    {key2val : StringMap} {unread : StdString}
    (hdecode : decodeEntries (getline 61 c.body) ∅ = some (key2val, unread)) :
    ∃ msg : Message, readMessage readMsg (c.bytes ++ rest) = .ok (⟨c.body, key2val⟩, msg, rest) ∧
      msg.key2val = key2val ∧ msg.sbuf = unread := by
  have htake : (c.body ++ rest).take (UInt32.ofNat (bodyText c.entries).length).toNat = c.body :=
    List.take_left' hn.symm
  have hread := readMessage_snprintf08x hsbuf (UInt32.ofNat (bodyText c.entries).length)
    (c.body ++ rest) (by simp [hn]) (htake ▸ hdecode)
  rw [htake, List.drop_left' hn.symm, ← List.append_assoc, ← c.bytes_of_not_stale hs] at hread
  exact ⟨_, hread, rfl, rfl⟩

theorem toNat_count (hbody : c.body.length < 2 ^ 31)
    (hover : 2 ^ 32 ∣ (bodyText (Library.overwritten c.entries)).length) :
    (UInt32.ofNat (bodyText c.entries).length).toNat = c.body.length := by
  rw [UInt32.toNat_ofNat', c.length_bodyText_entries]
  omega

private theorem sent_eq (hs : ¬ c.Stale) :
    c.sent = ⟨c.body, (∅ : StringMap).insertMany
      (c.calls.map (Prod.map Serialize.transmitted Serialize.transmitted))⟩ := by
  rw [sent, drop_bytes hs]

/-- With distinct entries the count is the length of the body. -/
theorem length_entries_eq (hnodup : (c.entries.map Prod.fst).Nodup) :
    (bodyText c.entries).length = c.body.length := by
  rw [c.length_bodyText_entries, Library.overwritten_of_nodup hnodup]
  exact Nat.zero_add _

/-- The keys are distinct, and every one of them is transmitted as it is. -/
structure PlainKeys (c : Composed) : Prop where
  nodup : (c.calls.map Prod.fst).Nodup
  key_ne : ∀ call ∈ c.calls, call.1 ≠ []
  key_nul : ∀ call ∈ c.calls, 0 ∉ call.1

namespace PlainKeys

theorem transmitted_eq (h : c.PlainKeys) {call : StdString × StdString} (hcall : call ∈ c.calls) :
    Serialize.transmitted call.1 = call.1 :=
  Serialize.transmitted_eq_self (h.key_ne call hcall) (h.key_nul call hcall)

theorem head?_ne (h : c.PlainKeys) : ∀ call ∈ c.calls, call.1.head? ≠ some 0 :=
  fun call hcall hhead ↦ h.key_nul call hcall (List.mem_of_mem_head? hhead)

private theorem map_transmitted (h : c.PlainKeys) :
    (c.calls.map fun call ↦ Serialize.transmitted call.1) = c.calls.map Prod.fst :=
  List.map_congr_left fun _ hcall ↦ h.transmitted_eq hcall

theorem nodup_entries (h : c.PlainKeys) : (c.entries.map Prod.fst).Nodup := by
  have hdecoded : (c.entries.map Prod.fst).map Serialize.decoded = c.calls.map Prod.fst := by
    rw [← h.map_transmitted, entries, List.map_map, List.map_map]
    refine List.map_congr_left fun call _ ↦ ?_
    simp [encodeEntry]
  refine List.Nodup.of_map Serialize.decoded ?_
  rw [hdecoded]
  exact h.nodup

/-- A message that fits its count arrives. -/
theorem exists_readMessage (h : c.PlainKeys) {readMsg : Message} (hsbuf : readMsg.sbuf = [])
    (hs : ¬ c.Stale) (hsize : (bodyText c.entries).length < 2 ^ 32) :
    ∃ r msg rest, readMessage readMsg c.bytes = .ok (r, msg, rest) ∧
      msg.key2val = c.sent.key2val ∧ msg.sbuf = [] := by
  have hn : (UInt32.ofNat (bodyText c.entries).length).toNat = c.body.length := by
    rw [UInt32.toNat_ofNat_of_lt' hsize, length_entries_eq h.nodup_entries]
  obtain ⟨msg, hread, hmsg⟩ := readMessage_bytes hsbuf hs hn [] (decodeEntries_body h.head?_ne)
  rw [List.append_nil] at hread
  exact ⟨_, msg, _, hread, hmsg⟩

/-- What the message holds for a key when it arrives. -/
theorem getElem?_sent (h : c.PlainKeys) (key value : StdString) :
    c.sent.key2val[key]? = some value ↔
      ∃ call ∈ c.calls, call.1 = key ∧ Serialize.transmitted call.2 = value := by
  have hnodup : ((c.calls.map (Prod.map Serialize.transmitted Serialize.transmitted)).map
      Prod.fst).Nodup := by
    rw [List.map_map]
    exact h.map_transmitted ▸ h.nodup
  rw [sent, Library.getElem?_insertMany_eq_some_iff, Library.surviving_of_nodup hnodup]
  simp only [Std.ExtTreeMap.getElem?_empty, reduceCtorEq, and_false, or_false, List.mem_map,
    Prod.map, Prod.mk.injEq]
  refine exists_congr fun call ↦ and_congr_right fun hcall ↦ ?_
  rw [h.transmitted_eq hcall]

end PlainKeys

private theorem sent_key2val_ne {call : StdString × StdString} (hcall : call ∈ c.calls) :
    c.sent.key2val ≠ ∅ := by
  intro h
  have hmem : Serialize.transmitted call.1 ∈ c.sent.key2val := by
    rw [sent, Std.ExtTreeMap.mem_insertMany_list]
    refine .inr ?_
    simp only [List.contains_eq_mem, decide_eq_true_eq, List.map_map]
    exact List.mem_map.mpr ⟨call, hcall, rfl⟩
  rw [h] at hmem
  exact Std.ExtTreeMap.not_mem_empty hmem

end Composed

private theorem framed_nil (readMsg : Message) : Framed readMsg [] := by
  refine ⟨by simp, ?_⟩
  exact readLoop_of_error rfl

private theorem framed_cons_iff {readMsg : Message} (hsbuf : readMsg.sbuf = []) {c : Composed}
    (hbody : c.body.length < 2 ^ 31) (cs : List Composed) :
    Framed readMsg (c :: cs) ↔
      c.WellFramed ∧ ∃ msg : Message, msg.sbuf = [] ∧
        readMessage readMsg (c.bytes ++ cs.flatMap Composed.bytes) =
          .ok (c.sent, msg, cs.flatMap Composed.bytes) ∧ Framed msg cs := by
  constructor
  · rintro ⟨hheaders, hread⟩
    rw [List.forall_mem_cons] at hheaders
    obtain ⟨hs, hover⟩ := (Composed.header_eq_iff hbody).mp hheaders.1
    have hn := Composed.toNat_count hbody hover
    rw [List.flatMap_cons, List.map_cons] at hread
    have hkeys : ∀ call ∈ c.calls, call.1.head? ≠ some 0 := by
      intro call hcall hkey
      obtain ⟨unread, hdecode⟩ := Composed.exists_body_of_emptyKey hcall hkey
      obtain ⟨msg, hmsg, -⟩ := Composed.readMessage_bytes hsbuf hs hn
        (cs.flatMap Composed.bytes) hdecode
      rw [readLoop_of_ok hmsg, Prod.mk.injEq, List.cons.injEq] at hread
      apply Composed.sent_key2val_ne hcall
      rw [← hread.1.1]
    obtain ⟨msg, hmsg, -, hempty⟩ := Composed.readMessage_bytes hsbuf hs hn
      (cs.flatMap Composed.bytes) (Composed.decodeEntries_body hkeys)
    rw [← Composed.sent_eq hs] at hmsg
    refine ⟨⟨hs, hover, hkeys⟩, msg, hempty, hmsg, hheaders.2, ?_⟩
    rw [readLoop_of_ok hmsg] at hread
    simpa [Prod.ext_iff] using hread
  · rintro ⟨hc, msg, -, hmsg, hheaders, hread⟩
    refine ⟨List.forall_mem_cons.mpr ⟨?_, hheaders⟩, ?_⟩
    · exact (Composed.header_eq_iff hbody).mpr ⟨hc.not_stale, hc.overwritten⟩
    · rw [List.flatMap_cons, readLoop_of_ok hmsg, hread, List.map_cons]

/-- Messages written one after the other are told apart by the reader exactly when each of
them is well framed. -/
theorem framed_iff {readMsg : Message} (hsbuf : readMsg.sbuf = []) (cs : List Composed)
    (hbody : ∀ c ∈ cs, c.body.length < 2 ^ 31) :
    Framed readMsg cs ↔ ∀ c ∈ cs, c.WellFramed := by
  induction cs generalizing readMsg with
  | nil => simp [framed_nil]
  | cons c cs ih =>
    rw [List.forall_mem_cons] at hbody
    rw [framed_cons_iff hsbuf hbody.1, List.forall_mem_cons]
    refine and_congr_right fun hc ↦ ⟨?_, fun hcs ↦ ?_⟩
    · rintro ⟨msg, hempty, -, hcs⟩
      exact (ih hempty hbody.2).mp hcs
    · obtain ⟨msg, hmsg, -, hempty⟩ := Composed.readMessage_bytes hsbuf hc.not_stale
        (Composed.toNat_count hbody.1 hc.overwritten) (cs.flatMap Composed.bytes)
        (Composed.decodeEntries_body hc.keys)
      rw [← Composed.sent_eq hc.not_stale] at hmsg
      exact ⟨msg, hempty, hmsg, (ih hempty hbody.2).mpr hcs⟩

/-- The request of `Sequence::add_pattern`, `src_jni/engine_code/sequence.cc:447–454`, for a
name with an escape. -/
def addPatternRequest : Composed :=
  .ofCalls true [(str "id", str "3"), (str "commandid", str "req_add_ptrn"),
    (str "name", str "50% off")] (by decide)

/-- The request of `Sequence::delete_pattern`, `src_jni/engine_code/sequence.cc:466–473`: its
key for the pattern is the one `send_object_message` has set for the object. -/
def deletePatternRequest : Composed :=
  .ofCalls false [(str "id", str "3"), (str "commandid", str "req_del_ptrn"),
    (str "id", str "1")] (by decide)

theorem framed_iff_addPatternRequest :
    (addPatternRequest.body.length < 2 ^ 31 ∧ addPatternRequest.WellFramed) ∧
      Framed (newMessage true 5) [addPatternRequest, addPatternRequest] := by
  have hbody : addPatternRequest.body.length < 2 ^ 31 := by decide +kernel
  have hc : addPatternRequest.WellFramed := ⟨by decide, by decide +kernel, by decide⟩
  refine ⟨⟨hbody, hc⟩, (framed_iff rfl [addPatternRequest, addPatternRequest] ?_).mpr ?_⟩
  · simpa using hbody
  · simpa using hc

/-- The identity of the object is counted in the header but overwritten in the body. -/
theorem deletePatternRequest_not_framed :
    deletePatternRequest.body.length < 2 ^ 31 ∧
      deletePatternRequest.bytes = str "00000021commandid=req_del_ptrn;id=1;" ∧
      ¬ Framed (newMessage false 0) [deletePatternRequest] := by
  refine ⟨by decide +kernel, by decide +kernel, fun h ↦ ?_⟩
  have hheader := h.1 deletePatternRequest List.mem_cons_self
  revert hheader
  decide +kernel

end Vuknob
