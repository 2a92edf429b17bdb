import Vuknob.Base.Number
import Vuknob.Library.Overwrite
import Vuknob.Remote.Serialize

/-!
# Messages

Class `RemoteInterface::Message`, `src_jni/remote_interface.hh:199–272` and
`src_jni/remote_interface.cc:52–186`. Its stream buffer is the bytes written and not yet
extracted; the streams opened on it live no longer than one call. The callback of a
pending reply and the fields of the UDP path are left out.
-/

namespace Vuknob

/-- `std::map<std::string, std::string>`. -/
abbrev StringMap := Std.ExtTreeMap StdString StdString

/-- `RemoteInterface::Message`, `src_jni/remote_interface.hh:243–256`. `data2send` is an
`int`, kept as its bits. No constructor initialises `encoded` or `bodyLength`. -/
structure Message where
  encoded : Bool
  bodyLength : UInt32
  sbuf : StdString
  data2send : UInt32
  awaitingReply : Bool
  key2val : StringMap

namespace Message

/-- `Message::IllegalChar` and `Message::NoSuchKey` with its `keyname`,
`src_jni/remote_interface.hh:203–215`. -/
inductive Error
  | illegalChar
  | noSuchKey (keyname : StdString)
  deriving DecidableEq

/-- `enum { header_length = 8 }`, `src_jni/remote_interface.hh:201`. -/
def headerLength : Nat := 8

/-- `clear_msg_content`, `src_jni/remote_interface.cc:181–186`. -/
def clearMsgContent (msg : Message) : Message :=
  { msg with
    data2send := 0
    awaitingReply := false
    key2val := ∅ }

/-- `recycle`, `src_jni/remote_interface.cc:110–113`. The count converts to `size_t`, a
negative one to more than any buffer holds. -/
def recycle (msg : Message) : Message :=
  let length := if msg.data2send.toNat < 2 ^ 31 then msg.data2send.toNat else msg.sbuf.length
  clearMsgContent { msg with sbuf := msg.sbuf.drop length }

/-- `set_value`, `src_jni/remote_interface.cc:70–84`. -/
def setValue (msg : Message) (key value : StdString) : Except Error Message :=
  if 59 ∈ key then .error .illegalChar
  else if 61 ∈ key then .error .illegalChar
  else if 59 ∈ value then .error .illegalChar
  else if 61 ∈ value then .error .illegalChar
  else
    let encKey := Serialize.encodeString key
    let encVal := Serialize.encodeString value
    .ok { msg with
      key2val := msg.key2val.insert encKey encVal
      data2send := msg.data2send + UInt32.ofNat (encKey.length + encVal.length + 2)
      encoded := false }

/-- `get_value`, `src_jni/remote_interface.cc:86–95`. -/
def getValue (msg : Message) (key : StdString) : Except Error StdString :=
  match msg.key2val[key]? with
  | none => .error (.noSuchKey (cString key))
  | some value => .ok value

/-- One entry of a body as `encode` writes it. -/
def entryText (entry : StdString × StdString) : StdString :=
  entry.1 ++ str "=" ++ entry.2 ++ str ";"

/-- The body that `encode` writes, `src_jni/remote_interface.cc:166–174`. -/
def bodyText (entries : List (StdString × StdString)) : StdString := entries.flatMap entryText

/-- `encode`, `src_jni/remote_interface.cc:154–179`. -/
def encode (msg : Message) : Message :=
  if msg.encoded then msg
  else
    { msg with
      encoded := true
      sbuf := msg.sbuf ++ snprintf08x msg.data2send ++ bodyText msg.key2val.toList
      data2send := msg.data2send + UInt32.ofNat headerLength }

/-- `prepare_buffer` followed by `commit_data` once the bytes have been read into it,
`src_jni/remote_interface.cc:97–104`. -/
def receive (msg : Message) (bytes : StdString) : Message :=
  { clearMsgContent msg with sbuf := msg.sbuf ++ bytes }

/-- `decode_header`, `src_jni/remote_interface.cc:124–133`: `is >> header` extracts the next
word; the length keeps its value when the word does not start with a number. -/
def decodeHeader (msg : Message) : Message :=
  let input := msg.sbuf.dropWhile isSpace
  let header := input.takeWhile (fun c ↦ !isSpace c)
  { msg with
    sbuf := input.dropWhile (fun c ↦ !isSpace c)
    bodyLength := (sscanf08x header).getD msg.bodyLength }

/-- What `std::getline` extracts, what it leaves, and whether it met the end of the stream
before the delimiter. -/
structure Line where
  text : StdString
  rest : StdString
  eof : Bool

/-- `std::getline` on a stream that has not failed. -/
def getline (delim : UInt8) : StdString → Line
  | [] => ⟨[], [], true⟩
  | c :: input =>
    if c = delim then ⟨[], input, false⟩
    else { getline delim input with text := c :: (getline delim input).text }

theorem length_rest_getline (delim : UInt8) (input : StdString) :
    (getline delim input).rest.length ≤ input.length := by
  induction input with
  | nil => simp [getline]
  | cons c input ih =>
    rw [getline]
    split
    · simp
    · simpa using Nat.le_succ_of_le ih

theorem length_rest_getline_lt {delim : UInt8} {input : StdString}
    (h : (getline delim input).eof = false) :
    (getline delim input).rest.length < input.length := by
  induction input with
  | nil => simp [getline] at h
  | cons c input ih =>
    rw [getline] at h ⊢
    split at h
    · simp [*]
    · next hc => simpa [hc] using Nat.lt_succ_of_lt (ih h)

/-- The loop of `decode_body` with the key just read, `src_jni/remote_interface.cc:140–151`.
When the value ends the stream its loop condition fails on the next test. -/
def decodeEntries (key : Line) (key2val : StringMap) : Option (StringMap × StdString) :=
  if key.eof ∨ key.text = [] then some (key2val, key.rest)
  else
    let val := getline 59 key.rest
    match Serialize.decodeString key.text, Serialize.decodeString val.text with
    | some k, some v =>
      if val.eof then some (key2val.insert k v, val.rest)
      else decodeEntries (getline 61 val.rest) (key2val.insert k v)
    | _, _ => none
termination_by key.rest.length
decreasing_by
  have hval : val.eof = false := Bool.eq_false_iff.mpr ‹_›
  exact Nat.lt_of_le_of_lt (length_rest_getline 61 val.rest) (length_rest_getline_lt hval)

/-- `decode_body`, `src_jni/remote_interface.cc:135–152`. -/
def decodeBody (msg : Message) : Option Message :=
  (decodeEntries (getline 61 msg.sbuf) msg.key2val).map fun (key2val, rest) ↦
    { msg with sbuf := rest, key2val := key2val }

/-! ## What the calls do -/

/-- `set_value` for each pair of a list, up to the first that throws. -/
def setValues (msg : Message) : List (StdString × StdString) → Except Error Message
  | [] => .ok msg
  | (key, value) :: calls =>
    match msg.setValue key value with
    | .error e => .error e
    | .ok msg => msg.setValues calls

/-- A key with its value as `set_value` stores them. -/
def encodeEntry (call : StdString × StdString) : StdString × StdString :=
  Prod.map Serialize.encodeString Serialize.encodeString call

@[simp] theorem bodyText_nil : bodyText [] = [] := rfl

theorem bodyText_append (es es' : List (StdString × StdString)) :
    bodyText (es ++ es') = bodyText es ++ bodyText es' := List.flatMap_append

theorem bodyText_cons (e : StdString × StdString) (es : List (StdString × StdString)) :
    bodyText (e :: es) = e.1 ++ 61 :: (e.2 ++ 59 :: bodyText es) := by
  have hsep : str "=" = [61] ∧ str ";" = [59] := by decide
  simp [bodyText, entryText, hsep.1, hsep.2]

theorem length_bodyText_cons (e : StdString × StdString) (es : List (StdString × StdString)) :
    (bodyText (e :: es)).length = e.1.length + e.2.length + 2 + (bodyText es).length := by
  rw [bodyText_cons]
  simp only [List.length_append, List.length_cons]
  omega

/-- An accepted call writes one entry and counts its length. -/
theorem setValue_eq {msg msg' : Message} {key value : StdString}
    (h : msg.setValue key value = .ok msg') :
    msg' = { msg with
      encoded := false
      data2send := msg.data2send + UInt32.ofNat ((Serialize.encodeString key).length +
        (Serialize.encodeString value).length + 2)
      key2val := msg.key2val.insert (Serialize.encodeString key)
        (Serialize.encodeString value) } := by
  rw [setValue] at h
  split_ifs at h
  exact (Except.ok.inj h).symm

/-- Accepted calls write to the map and add up the lengths, those of overwritten entries
included. -/
theorem setValues_eq {msg msg' : Message} {calls : List (StdString × StdString)}
    (h : msg.setValues calls = .ok msg') :
    msg' = { msg with
      encoded := if calls = [] then msg.encoded else false
      data2send := msg.data2send + UInt32.ofNat (bodyText (calls.map encodeEntry)).length
      key2val := msg.key2val.insertMany (calls.map encodeEntry) } := by
  induction calls generalizing msg with
  | nil =>
    obtain rfl := Except.ok.inj h
    simp [bodyText]
  | cons call calls ih =>
    obtain ⟨key, value⟩ := call
    rw [setValues] at h
    split at h
    · cases h
    · next msg₁ hset =>
      rw [ih h, setValue_eq hset, List.map_cons, length_bodyText_cons, UInt32.ofNat_add]
      simp [encodeEntry, UInt32.add_assoc, Std.ExtTreeMap.insertMany_cons]

/-- What `decode_body` needs of an entry it reads: a key, no separator in the wrong place,
and no escape that is cut short. -/
structure Readable (e : StdString × StdString) : Prop where
  key_ne : e.1 ≠ []
  key_sep : 61 ∉ e.1
  val_sep : 59 ∉ e.2
  key_decode : Serialize.decodeString e.1 = some (Serialize.decoded e.1)
  val_decode : Serialize.decodeString e.2 = some (Serialize.decoded e.2)

theorem getline_append {delim : UInt8} {text : StdString} (h : delim ∉ text)
    (rest : StdString) : getline delim (text ++ delim :: rest) = ⟨text, rest, false⟩ := by
  induction text with
  | nil => simp [getline]
  | cons c text ih =>
    simp only [List.mem_cons, not_or] at h
    rw [List.cons_append, getline, if_neg (Ne.symm h.1), ih h.2]

theorem getline_of_notMem {delim : UInt8} {text : StdString} (h : delim ∉ text) :
    getline delim text = ⟨text, [], true⟩ := by
  induction text with
  | nil => rfl
  | cons c text ih =>
    simp only [List.mem_cons, not_or] at h
    rw [getline, if_neg (Ne.symm h.1), ih h.2]

/-- The loop takes in one whole entry and goes on with the text behind it. -/
theorem decodeEntries_cons {e : StdString × StdString} (he : Readable e)
    (rest : StdString) (key2val : StringMap) :
    decodeEntries (getline 61 (e.1 ++ 61 :: (e.2 ++ 59 :: rest))) key2val =
      decodeEntries (getline 61 rest)
        (key2val.insert (Serialize.decoded e.1) (Serialize.decoded e.2)) := by
  rw [getline_append he.key_sep, decodeEntries]
  simp only [he.key_ne, getline_append he.val_sep, he.key_decode, he.val_decode]
  simp

/-- `decode_body` reads the entries of a body one after the other to its end. -/
theorem decodeEntries_bodyText {es : List (StdString × StdString)} (hes : ∀ e ∈ es, Readable e)
    (key2val : StringMap) :
    decodeEntries (getline 61 (bodyText es)) key2val =
      some (key2val.insertMany (es.map (Prod.map Serialize.decoded Serialize.decoded)), []) := by
  induction es generalizing key2val with
  | nil =>
    rw [decodeEntries]
    simp [bodyText, getline]
  | cons e es ih =>
    obtain ⟨key, value⟩ := e
    rw [List.forall_mem_cons] at hes
    rw [bodyText_cons, decodeEntries_cons hes.1, ih hes.2]
    simp [Std.ExtTreeMap.insertMany_cons]

/-- A body that begins with an empty key is given up at once and stays in the buffer. -/
theorem decodeEntries_emptyKey (rest : StdString) (key2val : StringMap) :
    decodeEntries (getline 61 (61 :: rest)) key2val = some (key2val, rest) := by
  rw [decodeEntries]
  simp [getline]

/-- `decode_header` after `encode` finds the count that `encode` wrote. -/
theorem decodeHeader_snprintf08x (msg : Message) (n : UInt32) (h : msg.sbuf = snprintf08x n) :
    msg.decodeHeader = { msg with sbuf := [], bodyLength := n } := by
  have hword : ∀ c ∈ snprintf08x n, isSpace c = false := fun c hc ↦ (mem_snprintf08x hc).1
  have hskip : (snprintf08x n).dropWhile isSpace = snprintf08x n := by
    rw [List.dropWhile_eq_self_iff]
    intro hlen
    simpa using hword _ (List.getElem_mem hlen)
  have htake : (snprintf08x n).takeWhile (fun c ↦ !isSpace c) = snprintf08x n :=
    List.takeWhile_eq_self_iff.mpr fun c hc ↦ by simp [hword c hc]
  have hdrop : (snprintf08x n).dropWhile (fun c ↦ !isSpace c) = [] :=
    List.dropWhile_eq_nil_iff.mpr fun c hc ↦ by simp [hword c hc]
  rw [decodeHeader]
  simp only [h, hskip, htake, hdrop, sscanf08x_snprintf08x, Option.getD_some]

end Message

/-! ## Single values -/

/-- `set_value`, `src_jni/remote_interface.cc:70–84`, as far as it is about the value. -/
def setText (value : StdString) : Option StdString :=
  if 59 ∈ value ∨ 61 ∈ value then none else some (Serialize.encodeString value)

/-- The value as `decode_body` finds it at the other end. -/
def deliverText (value : StdString) : Option StdString := do
  Serialize.decodeString (← setText value)

theorem deliverText_eq {value : StdString} (hsemicolon : 59 ∉ value) (hequals : 61 ∉ value) :
    deliverText value = some (Serialize.transmitted value) := by
  rw [deliverText, setText, if_neg (not_or.mpr ⟨hsemicolon, hequals⟩)]
  exact Serialize.decodeString_encodeString value

/-- A number is transmitted as it is written. -/
theorem Serialize.transmitted_decimalInt (n : Int) :
    Serialize.transmitted (decimalInt n) = decimalInt n :=
  Serialize.transmitted_eq_self (decimalInt_ne_nil n) fun h ↦ (mem_decimalInt h).1 rfl

theorem deliverText_decimalInt (n : Int) : deliverText (decimalInt n) = some (decimalInt n) := by
  rw [deliverText_eq (fun h ↦ (mem_decimalInt h).2.1 rfl) fun h ↦ (mem_decimalInt h).2.2 rfl,
    Serialize.transmitted_decimalInt]

/-- A value arrives as it was set. -/
theorem decodeString_setText {value : StdString} (hne : value ≠ []) (hsemicolon : 59 ∉ value)
    (hequals : 61 ∉ value) (hnul : 0 ∉ value) :
    setText value = some (Serialize.encodeString value) ∧
      Serialize.decodeString (Serialize.encodeString value) = some value := by
  constructor
  · rw [setText, if_neg (not_or.mpr ⟨hsemicolon, hequals⟩)]
  · rw [Serialize.decodeString_encodeString, Serialize.transmitted_eq_self hne hnul]

end Vuknob
