import Vuknob.Remote.Framing

/-!
# The shortcut of the server

`SimpleBaseObject::send_message_to_server`, `src_jni/remote_interface.cc:642–717`, gives the
message to the handler as it is when the object is on the server, and sends it when the object is
on a client. The handler answers with `Context::acquire_reply`, `src_jni/remote_interface.cc:259–264`,
and `deliver_message`, which calls the callback of a `SimpleHandler` with the answer as it is and
sends it to a client. What is sent goes through `encode` and `decode_body`.
-/

namespace Vuknob

open Message

namespace Message

/-- What `decode_body` makes of the body that `encode` writes. -/
def arrived (msg : Message) : Option Message :=
  { newMessage false 0 with sbuf := bodyText msg.key2val.toList }.decodeBody

/-- `__MSG_REPLY`, `src_jni/remote_interface.hh:139`. -/
def msgReply : Int32 := -6

/-- `acquire_reply` with the message that `acquire_message` returns,
`src_jni/remote_interface.cc:259–264`. `std::to_string` of a string is the string. -/
def acquireReply (acquired originator : Message) : Except Error Message := do
  let reply ← acquired.setValue (str "id") (decimalInt msgReply.toInt)
  reply.setValue (str "repid") (← originator.getValue (str "repid"))

/-- What a handler answers: a reply with the values it sets. -/
def answer (acquired originator : Message) (values : List (StdString × StdString)) :
    Except Error Message := do
  (← acquireReply acquired originator).setValues values

/-- The request that a received message answers, `src_jni/engine_code/client.cc:109–160`; none
when it is not an answer or `on_message_received` throws. -/
def replyIdentifier (msg : Message) : Option Int32 := do
  let identifier ← (stol (← (msg.getValue (str "id")).toOption)).toOption
  if Int32.ofInt identifier.toInt = msgReply then
    let replyIdentifier ← (stol (← (msg.getValue (str "repid")).toOption)).toOption
    return Int32.ofInt replyIdentifier.toInt
  else none

end Message

/-- The replies that a client waits for, `src_jni/engine_code/client.hh:38–39`. -/
structure WaitingForReply where
  nextReplyId : Int32
  msgWaitingForReply : Std.ExtTreeSet Int32

/-- `distribute_message` up to `deliver_message`, `src_jni/engine_code/client.cc:279–296`; nothing
is delivered when the identity of the reply is still in use. -/
def WaitingForReply.distributeMessage (client : WaitingForReply) (msg : Message) :
    Except Message.Error (Option Message) :=
  if msg.awaitingReply then
    if client.nextReplyId ∈ client.msgWaitingForReply then .ok none
    else
      match msg.setValue (str "repid") (decimalInt client.nextReplyId.toInt) with
      | .error e => .error e
      | .ok msg => .ok (some msg)
  else .ok (some msg)

/-- Pairs of keys and values that `set_value` accepts. -/
abbrev AcceptedValues := { values : List (StdString × StdString) // ∀ call ∈ values, Acceptable call }

/-- A call of `send_message_to_server`: the object, the command, and the values that
`create_msg_callback` sets. -/
structure ServerCall where
  objId : Int32
  commandId : StdString
  commandId_accepted : 59 ∉ commandId ∧ 61 ∉ commandId
  values : AcceptedValues

namespace ServerCall

/-- All calls of `set_value` on the message. -/
def calls (x : ServerCall) : List (StdString × StdString) :=
  (str "id", decimalInt x.objId.toInt) :: (str "commandid", x.commandId) :: x.values.val

/-- The message on an object of the server, `src_jni/remote_interface.cc:654–656`. -/
def shortcut (x : ServerCall) (acquired : Message) : Except Message.Error Message :=
  acquired.setValues x.calls

/-- The message on an object of a client: `send_object_message`,
`src_jni/remote_interface.cc:453–512`, with a handler of the reply where there is a callback. -/
def request (x : ServerCall) (acquired : Message) (callback : Bool) : Except Message.Error Message :=
  { acquired with awaitingReply := callback }.setValues x.calls

end ServerCall

/-! ## What both sides see -/

/-- `get_value` gives the same for every key. -/
def SameValues (msg msg' : Message) : Prop := ∀ key, msg.getValue key = msg'.getValue key

theorem sameValues_iff {msg msg' : Message} :
    SameValues msg msg' ↔ msg.key2val = msg'.key2val := by
  constructor
  · intro h
    apply Std.ExtTreeMap.ext_getElem?
    intro key
    have hkey := h key
    simp only [getValue] at hkey
    cases hvalue : msg.key2val[key]? with
    | none =>
      cases hvalue' : msg'.key2val[key]? with
      | none => rfl
      | some value => simp [hvalue, hvalue'] at hkey
    | some value =>
      cases hvalue' : msg'.key2val[key]? with
      | none => simp [hvalue, hvalue'] at hkey
      | some value' => simpa [hvalue, hvalue'] using hkey
  · intro h key
    rw [getValue, getValue, h]

/-- The values of accepted calls as they come out of `decode_body`. -/
def travelled (calls : List (StdString × StdString)) : StringMap :=
  (∅ : StringMap).insertMany (calls.map (Prod.map Serialize.transmitted Serialize.transmitted))

/-- No key begins with a NUL byte, and no key and no value that is not overwritten holds a percent
sign where it is transmitted. -/
structure Unescaped (calls : List (StdString × StdString)) : Prop where
  keys : ∀ call ∈ calls, call.1.head? ≠ some 0
  values : ∀ key value : StdString, (travelled calls)[key]? = some value → 37 ∉ key ∧ 37 ∉ value

section Escapes

variable {calls : List (StdString × StdString)}

private theorem escaped_travelled (calls : List (StdString × StdString)) (k v : StdString) :
    ((∅ : StringMap).insertMany (calls.map encodeEntry))[k]? = some v ↔
      ∃ key value : StdString, (travelled calls)[key]? = some value ∧
        key.flatMap Serialize.escape = k ∧ value.flatMap Serialize.escape = v := by
  let escapes : StdString → StdString := fun s ↦ s.flatMap Serialize.escape
  let travel := Prod.map Serialize.transmitted Serialize.transmitted
  have hentries : calls.map encodeEntry = (calls.map travel).map (Prod.map escapes escapes) := by
    rw [List.map_map]
    refine List.map_congr_left fun call _ ↦ ?_
    simp only [encodeEntry, Prod.map, Serialize.encodeString_eq_flatMap]
    rfl
  have hinj : ∀ a ∈ (calls.map travel).map Prod.fst, ∀ b ∈ (calls.map travel).map Prod.fst,
      escapes a = escapes b → a = b := by
    intro a ha b hb hab
    simp only [List.map_map, List.mem_map, Function.comp, travel, Prod.map_fst] at ha hb
    obtain ⟨ca, -, rfl⟩ := ha
    obtain ⟨cb, -, rfl⟩ := hb
    apply Serialize.encodeString_inj.mp
    rw [Serialize.encodeString_eq_flatMap, Serialize.encodeString_eq_flatMap]
    exact hab
  rw [hentries, Library.getElem?_insertMany_eq_some_iff, Library.surviving_map escapes escapes hinj]
  simp only [travelled, Library.getElem?_insertMany_eq_some_iff, Std.ExtTreeMap.getElem?_empty,
    reduceCtorEq, and_false, or_false, List.mem_map, Prod.exists, Prod.map, Prod.mk.injEq]
  rfl

/-- What is transmitted holds no separators. -/
private theorem plain_travelled (haccepted : ∀ call ∈ calls, Acceptable call) {key value : StdString}
    (h : (travelled calls)[key]? = some value) :
    (61 ∉ key ∧ 59 ∉ key) ∧ 61 ∉ value ∧ 59 ∉ value := by
  simp only [travelled, Library.getElem?_insertMany_eq_some_iff, Std.ExtTreeMap.getElem?_empty,
    reduceCtorEq, and_false, or_false] at h
  obtain ⟨call, hcall, heq⟩ := List.mem_map.mp (Library.mem_of_mem_surviving h)
  obtain ⟨hk₅₉, hk₆₁, hv₅₉, hv₆₁⟩ := haccepted call hcall
  obtain ⟨rfl, rfl⟩ := Prod.mk.inj heq
  exact ⟨⟨Serialize.notMem_transmitted (by decide) hk₆₁,
      Serialize.notMem_transmitted (by decide) hk₅₉⟩,
    Serialize.notMem_transmitted (by decide) hv₆₁, Serialize.notMem_transmitted (by decide) hv₅₉⟩

private theorem exists_length_le (calls : List (StdString × StdString)) :
    ∃ bound, ∀ key value : StdString, (travelled calls)[key]? = some value → key.length ≤ bound := by
  refine ⟨(travelled calls).keys.flatten.length, fun key value h ↦ ?_⟩
  have hmem : key ∈ (travelled calls).keys :=
    Std.ExtTreeMap.mem_keys.mpr (Std.ExtTreeMap.mem_iff_isSome_getElem?.mpr (by rw [h]; rfl))
  exact (List.sublist_flatten_of_mem hmem).length_le

/-- The values are stored as they arrive exactly if nothing is escaped. -/
private theorem stored_eq_travelled_iff (haccepted : ∀ call ∈ calls, Acceptable call) :
    (∅ : StringMap).insertMany (calls.map encodeEntry) = travelled calls ↔
      ∀ key value : StdString, (travelled calls)[key]? = some value → 37 ∉ key ∧ 37 ∉ value := by
  have hescaped := escaped_travelled calls
  constructor
  · intro hsame
    obtain ⟨bound, hbound⟩ := exists_length_le calls
    rw [hsame] at hescaped
    have hstep {key value : StdString} (h : (travelled calls)[key]? = some value) :
        (travelled calls)[key.flatMap Serialize.escape]? =
          some (value.flatMap Serialize.escape) := (hescaped _ _).mpr ⟨key, value, h, rfl, rfl⟩
    -- the escape of a key is a key again, and so would be longer and longer ones
    have hkey (n : Nat) (key value : StdString) (h : (travelled calls)[key]? = some value)
        (hlong : bound < key.length + n) : 37 ∉ key := by
      induction n generalizing key value with
      | zero =>
        have := hbound key value h
        omega
      | succ n ih =>
        intro hmem
        obtain ⟨hlonger, hagain⟩ := Serialize.flatMap_escape_of_mem hmem
        exact ih _ _ (hstep h) (by omega) hagain
    intro key value h
    have hplain : 37 ∉ key := hkey (bound + 1) key value h (by omega)
    refine ⟨hplain, fun hmem ↦ ?_⟩
    obtain ⟨⟨hk₆₁, hk₅₉⟩, -⟩ := plain_travelled haccepted h
    have hvalue := hstep h
    rw [Serialize.flatMap_escape_of_plain hplain hk₆₁ hk₅₉, h] at hvalue
    have hlonger := (Serialize.flatMap_escape_of_mem hmem).1
    rw [← Option.some.inj hvalue] at hlonger
    exact Nat.lt_irrefl _ hlonger
  · intro hplain
    have hself {key value : StdString} (h : (travelled calls)[key]? = some value) :
        key.flatMap Serialize.escape = key ∧ value.flatMap Serialize.escape = value := by
      obtain ⟨hk₃₇, hv₃₇⟩ := hplain key value h
      obtain ⟨⟨hk₆₁, hk₅₉⟩, hv₆₁, hv₅₉⟩ := plain_travelled haccepted h
      exact ⟨Serialize.flatMap_escape_of_plain hk₃₇ hk₆₁ hk₅₉,
        Serialize.flatMap_escape_of_plain hv₃₇ hv₆₁ hv₅₉⟩
    apply Std.ExtTreeMap.ext_getElem?
    intro k
    apply Option.ext
    intro v
    rw [hescaped]
    constructor
    · rintro ⟨key, value, h, rfl, rfl⟩
      rw [(hself h).1, (hself h).2]
      exact h
    · intro h
      exact ⟨k, v, h, (hself h).1, (hself h).2⟩

end Escapes

/-! ## What arrives -/

namespace Composed

variable {c c' : Composed}

private theorem acceptable_of_setValues {msg msg' : Message} {calls : List (StdString × StdString)}
    (h : msg.setValues calls = .ok msg') : ∀ call ∈ calls, Acceptable call := by
  induction calls generalizing msg with
  | nil => simp
  | cons call calls ih =>
    obtain ⟨key, value⟩ := call
    rw [setValues] at h
    split at h
    · cases h
    · next hset =>
      refine List.forall_mem_cons.mpr ⟨?_, ih h⟩
      rw [setValue] at hset
      split_ifs at hset with h₁ h₂ h₃ h₄
      exact ⟨h₁, h₂, h₃, h₄⟩

theorem acceptable (c : Composed) : ∀ call ∈ c.calls, Acceptable call :=
  acceptable_of_setValues c.accepted

/-- A message without an empty key arrives, with every string as it is transmitted. -/
theorem arrived_of_keys (h : ∀ call ∈ c.calls, call.1.head? ≠ some 0) :
    ∃ msg, c.message.arrived = some msg ∧ msg.key2val = travelled c.calls := by
  have hdecode := decodeEntries_body h
  simp only [body] at hdecode
  refine ⟨{ newMessage false 0 with key2val := travelled c.calls }, ?_, rfl⟩
  simp only [arrived, decodeBody, newMessage, hdecode, Option.map_some]
  rfl

/-- A message with an empty key arrives empty. -/
private theorem arrived_of_emptyKey {call : StdString × StdString} (hcall : call ∈ c.calls)
    (h : call.1.head? = some 0) : ∃ msg, c.message.arrived = some msg ∧ msg.key2val = ∅ := by
  obtain ⟨rest, hdecode⟩ := exists_body_of_emptyKey hcall h
  simp only [body] at hdecode
  refine ⟨{ newMessage false 0 with sbuf := rest }, ?_, rfl⟩
  simp only [arrived, decodeBody, newMessage, hdecode, Option.map_some]

private theorem key2val_ne_empty (h : c.calls ≠ []) : c.message.key2val ≠ ∅ := by
  obtain ⟨call, hcall⟩ := List.exists_mem_of_ne_nil _ h
  intro hempty
  have hmem : Serialize.encodeString call.1 ∈ c.message.key2val := by
    rw [key2val_eq, Std.ExtTreeMap.mem_insertMany_list]
    simp only [List.contains_eq_mem, decide_eq_true_eq, entries, List.map_map]
    exact .inr (List.mem_map.mpr ⟨call, hcall, rfl⟩)
  rw [hempty] at hmem
  exact Std.ExtTreeMap.not_mem_empty hmem

/-- A message that is not empty is seen alike before and after its way exactly if it is stored as
it arrives. -/
private theorem sameValues_arrived_iff (hcalls : c.calls ≠ []) :
    (∃ received, c'.message.arrived = some received ∧ SameValues c.message received) ↔
      (∀ call ∈ c'.calls, call.1.head? ≠ some 0) ∧ c.message.key2val = travelled c'.calls := by
  constructor
  · rintro ⟨received, harrived, hsame⟩
    rw [sameValues_iff] at hsame
    have hkeys : ∀ call ∈ c'.calls, call.1.head? ≠ some 0 := by
      intro call hcall hhead
      obtain ⟨msg, hmsg, hempty⟩ := arrived_of_emptyKey hcall hhead
      obtain rfl := Option.some.inj (harrived.symm.trans hmsg)
      exact key2val_ne_empty hcalls (hsame.trans hempty)
    obtain ⟨msg, hmsg, htravelled⟩ := arrived_of_keys hkeys
    obtain rfl := Option.some.inj (harrived.symm.trans hmsg)
    exact ⟨hkeys, hsame.trans htravelled⟩
  · rintro ⟨hkeys, heq⟩
    obtain ⟨msg, hmsg, htravelled⟩ := arrived_of_keys hkeys
    exact ⟨msg, hmsg, sameValues_iff.mpr (heq.trans htravelled.symm)⟩

/-- A message is seen alike before and after its way exactly if nothing in it is escaped. -/
theorem sameValues_arrived_same_iff (hcalls : c.calls ≠ []) (hc' : c'.calls = c.calls) :
    (∃ received, c'.message.arrived = some received ∧ SameValues c.message received) ↔
      Unescaped c.calls := by
  rw [sameValues_arrived_iff hcalls, hc', key2val_eq, entries, stored_eq_travelled_iff c.acceptable]
  exact ⟨fun h ↦ ⟨h.1, h.2⟩, fun h ↦ ⟨h.keys, h.values⟩⟩

private theorem insert_same {values : StringMap} {key value : StdString}
    (h : values[key]? = some value) : values.insert key value = values := by
  apply Std.ExtTreeMap.ext_getElem?
  intro k
  rw [Std.ExtTreeMap.getElem?_insert]
  split
  · next heq => rw [← Std.LawfulEqCmp.eq_of_compare heq, h]
  · rfl

/-- A message is seen alike without and with a number added on its way exactly if nothing in it
is escaped and it has the number from the start. -/
theorem sameValues_arrived_append_iff (hcalls : c.calls ≠ []) {n : Int}
    (hc' : c'.calls = c.calls ++ [(str "repid", decimalInt n)]) :
    (∃ received, c'.message.arrived = some received ∧ SameValues c.message received) ↔
      Unescaped c.calls ∧ (travelled c.calls)[str "repid"]? = some (decimalInt n) := by
  have htravelled : travelled c'.calls = (travelled c.calls).insert (str "repid") (decimalInt n) := by
    rw [hc', travelled, List.map_append, Std.ExtTreeMap.insertMany_append]
    show Std.ExtTreeMap.insert _ (Serialize.transmitted (str "repid"))
      (Serialize.transmitted (decimalInt n)) = _
    rw [Serialize.transmitted_decimalInt, Serialize.transmitted_eq_self (by decide) (by decide)]
    rfl
  rw [sameValues_arrived_iff hcalls, htravelled, hc', List.forall_mem_append, key2val_eq, entries]
  constructor
  · rintro ⟨⟨hkeys, -⟩, heq⟩
    have hescaped := escaped_travelled c.calls (str "repid") (decimalInt n)
    rw [heq, Std.ExtTreeMap.getElem?_insert_self] at hescaped
    obtain ⟨key, value, hvalue, hkey, hnumber⟩ := hescaped.mp rfl
    obtain ⟨⟨hk₆₁, hk₅₉⟩, hv₆₁, hv₅₉⟩ := plain_travelled c.acceptable hvalue
    have hk₃₇ : 37 ∉ key := fun hmem ↦
      absurd (hkey ▸ (Serialize.flatMap_escape_of_mem hmem).2) (by decide)
    have hv₃₇ : 37 ∉ value := fun hmem ↦
      percent_notMem_decimalInt n (hnumber ▸ (Serialize.flatMap_escape_of_mem hmem).2)
    rw [Serialize.flatMap_escape_of_plain hk₃₇ hk₆₁ hk₅₉] at hkey
    rw [Serialize.flatMap_escape_of_plain hv₃₇ hv₆₁ hv₅₉] at hnumber
    subst hkey hnumber
    rw [insert_same hvalue] at heq
    exact ⟨⟨hkeys, (stored_eq_travelled_iff c.acceptable).mp heq⟩, hvalue⟩
  · rintro ⟨hplain, hvalue⟩
    have hrepid : (str "repid").head? ≠ some 0 := by decide
    refine ⟨⟨hplain.keys, by simpa using hrepid⟩, ?_⟩
    rw [insert_same hvalue, stored_eq_travelled_iff c.acceptable]
    exact hplain.values

end Composed

/-! ## The whole round -/

/-- What `acquire_message` returns. -/
abbrev AcquiredMessage := { msg : Message // msg.Fresh }

/-- All calls of `set_value` on an answer to the request `repid`. -/
def replyCalls (repid : StdString) (values : List (StdString × StdString)) :
    List (StdString × StdString) :=
  (str "id", decimalInt msgReply.toInt) :: (str "repid", repid) :: values

namespace ServerCall

variable (x : ServerCall) (client : WaitingForReply)

/-- The handler gets `msg` on the server and `received` from a client, and sees the same. -/
def HandlerAlike (acquired acquired' : AcquiredMessage) (callback : Bool) (msg received : Message) :
    Prop :=
  x.shortcut acquired = .ok msg ∧
    ∃ sent delivered, x.request acquired' callback = .ok sent ∧
      client.distributeMessage sent = .ok (some delivered) ∧ delivered.arrived = some received ∧
      SameValues msg received

/-- The request names the reply that the client will wait for. -/
def NamesReply : Prop :=
  client.nextReplyId ∉ client.msgWaitingForReply ∧
    (travelled x.calls)[str "repid"]? = some (decimalInt client.nextReplyId.toInt)

end ServerCall

namespace WaitingForReply

variable (client : WaitingForReply)

/-- The handler answers `msg` and `received` with the same values, and the callback sees the same,
called with the answer on the server and with what the client receives. -/
def CallbackAlike (acquired acquired' : AcquiredMessage) (msg received : Message)
    (values : AcceptedValues) : Prop :=
  ∃ reply reply' receivedReply, answer acquired msg values = .ok reply ∧
    answer acquired' received values = .ok reply' ∧ reply'.arrived = some receivedReply ∧
    receivedReply.replyIdentifier = some client.nextReplyId ∧ SameValues reply receivedReply

/-- The answer holds nothing that is escaped and still names the request. -/
def Answered (values : AcceptedValues) : Prop :=
  let calls := replyCalls (decimalInt client.nextReplyId.toInt) values
  Unescaped calls ∧
    { newMessage false 0 with key2val := travelled calls }.replyIdentifier =
      some client.nextReplyId

end WaitingForReply

/-- The composed message of accepted calls. -/
theorem exists_composed (acquired : AcquiredMessage) {calls : List (StdString × StdString)}
    (h : ∀ call ∈ calls, Acceptable call) :
    ∃ c : Composed, c.acquired = acquired ∧ c.calls = calls ∧
      acquired.val.setValues calls = .ok c.message := by
  obtain ⟨msg, hmsg⟩ := exists_setValues h acquired.val
  exact ⟨⟨acquired, acquired.2, calls, msg, hmsg⟩, rfl, rfl, hmsg⟩

/-- A number is accepted under a key without separators. -/
theorem acceptable_decimalInt {key : StdString} (h : 59 ∉ key ∧ 61 ∉ key) (n : Int) :
    Acceptable (key, decimalInt n) :=
  ⟨h.1, h.2, fun hmem ↦ (mem_decimalInt hmem).2.1 rfl, fun hmem ↦ (mem_decimalInt hmem).2.2 rfl⟩

private theorem acceptable_repid (n : Int) : Acceptable (str "repid", decimalInt n) :=
  acceptable_decimalInt (by decide) n

/-- One more call after the others. -/
theorem setValues_concat {msg msg₁ msg₂ : Message} {calls : List (StdString × StdString)}
    {key value : StdString} (h₁ : msg.setValues calls = .ok msg₁)
    (h₂ : msg₁.setValue key value = .ok msg₂) :
    msg.setValues (calls ++ [(key, value)]) = .ok msg₂ := by
  induction calls generalizing msg with
  | nil =>
    obtain rfl := Except.ok.inj h₁
    rw [List.nil_append, setValues, h₂]
    rfl
  | cons call calls ih =>
    obtain ⟨k, v⟩ := call
    rw [setValues] at h₁
    rw [List.cons_append, setValues]
    split at h₁
    · cases h₁
    · exact ih h₁

namespace ServerCall

variable {x : ServerCall} {client : WaitingForReply} {acquired acquired' : AcquiredMessage}
  {msg received : Message}

private theorem acceptable (x : ServerCall) : ∀ call ∈ x.calls, Acceptable call := by
  have hkey : 59 ∉ str "commandid" ∧ 61 ∉ str "commandid" := by decide
  rw [calls, List.forall_mem_cons, List.forall_mem_cons]
  exact ⟨acceptable_decimalInt (by decide) _, ⟨hkey.1, hkey.2, x.commandId_accepted⟩, x.values.2⟩

private theorem calls_ne_nil (x : ServerCall) : x.calls ≠ [] := List.cons_ne_nil _ _

/-- The message of the client before it is distributed. -/
theorem exists_request (x : ServerCall) (acquired' : AcquiredMessage) (callback : Bool) :
    ∃ c : Composed, c.calls = x.calls ∧ x.request acquired' callback = .ok c.message ∧
      c.message.awaitingReply = callback := by
  have hfresh : ({ acquired'.val with awaitingReply := callback } : Message).Fresh :=
    ⟨acquired'.2.sbuf_eq, acquired'.2.data2send_eq, acquired'.2.key2val_eq⟩
  obtain ⟨c, hacquired, hcalls, hset⟩ := exists_composed ⟨_, hfresh⟩ x.acceptable
  refine ⟨c, hcalls, hset, ?_⟩
  rw [c.message_eq, hacquired]

/-- Without a callback the handler sees the same exactly if nothing is escaped. -/
private theorem handlerAlike_iff (acquired acquired' : AcquiredMessage) :
    (∃ msg received, x.HandlerAlike client acquired acquired' false msg received) ↔
      Unescaped x.calls := by
  obtain ⟨c, -, hcalls, hset⟩ := exists_composed acquired x.acceptable
  obtain ⟨c', hcalls', hrequest, hawaiting⟩ := exists_request x acquired' false
  have hdistribute : client.distributeMessage c'.message = .ok (some c'.message) := by
    rw [WaitingForReply.distributeMessage, hawaiting]
    rfl
  have halike := Composed.sameValues_arrived_same_iff (hcalls ▸ x.calls_ne_nil)
    (hcalls'.trans hcalls.symm)
  rw [hcalls] at halike
  rw [← halike]
  constructor
  · rintro ⟨msg, received, hmsg, sent, delivered, hsent, hdelivered, harrived, hsame⟩
    obtain rfl := Except.ok.inj (hset.symm.trans hmsg)
    obtain rfl := Except.ok.inj (hrequest.symm.trans hsent)
    obtain rfl := Option.some.inj (Except.ok.inj (hdistribute.symm.trans hdelivered))
    exact ⟨received, harrived, hsame⟩
  · rintro ⟨received, harrived, hsame⟩
    exact ⟨_, received, hset, _, _, hrequest, hdistribute, harrived, hsame⟩

/-- With a callback it does only if the request names the reply. -/
private theorem handlerAlike_callback_iff (acquired acquired' : AcquiredMessage) :
    (∃ msg received, x.HandlerAlike client acquired acquired' true msg received) ↔
      Unescaped x.calls ∧ x.NamesReply client := by
  obtain ⟨c, -, hcalls, hset⟩ := exists_composed acquired x.acceptable
  obtain ⟨c', hcalls', hrequest, hawaiting⟩ := exists_request x acquired' true
  obtain ⟨delivered, hdelivered⟩ : ∃ delivered, c'.message.setValue (str "repid")
      (decimalInt client.nextReplyId.toInt) = .ok delivered := by
    obtain ⟨h₁, h₂, h₃, h₄⟩ := acceptable_repid client.nextReplyId.toInt
    rw [setValue, if_neg h₁, if_neg h₂, if_neg h₃, if_neg h₄]
    exact ⟨_, rfl⟩
  let c'' : Composed := ⟨c'.acquired, c'.fresh, _, delivered, setValues_concat c'.accepted hdelivered⟩
  have halike := Composed.sameValues_arrived_append_iff (hcalls ▸ x.calls_ne_nil)
    (show c''.calls = c.calls ++ [(str "repid", decimalInt client.nextReplyId.toInt)] by
      rw [hcalls, ← hcalls'])
  rw [hcalls] at halike
  by_cases hwaiting : client.nextReplyId ∈ client.msgWaitingForReply
  · have hdistribute : client.distributeMessage c'.message = .ok none := by
      rw [WaitingForReply.distributeMessage, if_pos hawaiting, if_pos hwaiting]
    refine iff_of_false ?_ fun h ↦ h.2.1 hwaiting
    rintro ⟨msg, received, -, sent, delivered', hsent, hdelivered', -⟩
    obtain rfl := Except.ok.inj (hrequest.symm.trans hsent)
    cases hdistribute.symm.trans hdelivered'
  · have hdistribute : client.distributeMessage c'.message = .ok (some delivered) := by
      rw [WaitingForReply.distributeMessage, if_pos hawaiting, if_neg hwaiting, hdelivered]
    rw [NamesReply, and_iff_right hwaiting, ← halike]
    constructor
    · rintro ⟨msg, received, hmsg, sent, delivered', hsent, hdelivered', harrived, hsame⟩
      obtain rfl := Except.ok.inj (hset.symm.trans hmsg)
      obtain rfl := Except.ok.inj (hrequest.symm.trans hsent)
      obtain rfl := Option.some.inj (Except.ok.inj (hdistribute.symm.trans hdelivered'))
      exact ⟨received, harrived, hsame⟩
    · rintro ⟨received, harrived, hsame⟩
      exact ⟨_, received, hset, _, _, hrequest, hdistribute, harrived, hsame⟩

/-- Where it does, the answer is for the request the client waits for. -/
private theorem getValue_repid (hcalls : Unescaped x.calls) (hnames : x.NamesReply client)
    (h : x.HandlerAlike client acquired acquired' true msg received) :
    msg.getValue (str "repid") = .ok (decimalInt client.nextReplyId.toInt) ∧
      received.getValue (str "repid") = .ok (decimalInt client.nextReplyId.toInt) := by
  obtain ⟨hset, -, -, -, -, -, hsame⟩ := h
  have hstored : msg.key2val = travelled x.calls := by
    rw [setValues_eq hset, acquired.2.key2val_eq]
    exact (stored_eq_travelled_iff x.acceptable).mpr hcalls.values
  have hvalue : msg.getValue (str "repid") = .ok (decimalInt client.nextReplyId.toInt) := by
    rw [getValue, hstored, hnames.2]
  exact ⟨hvalue, (hsame _).symm.trans hvalue⟩

end ServerCall

namespace WaitingForReply

variable {client : WaitingForReply} {acquired acquired' : AcquiredMessage} {msg received : Message}

private theorem answer_eq {originator : Message} {repid : StdString}
    (h : originator.getValue (str "repid") = .ok repid) (acquired : Message)
    (values : List (StdString × StdString)) :
    answer acquired originator values = acquired.setValues (replyCalls repid values) := by
  rw [answer, acquireReply, replyCalls, setValues]
  cases hid : acquired.setValue (str "id") (decimalInt msgReply.toInt) with
  | error e => rfl
  | ok reply =>
    show ((originator.getValue (str "repid")).bind fun repid ↦ reply.setValue (str "repid") repid).bind
      (fun reply ↦ reply.setValues values) = reply.setValues ((str "repid", repid) :: values)
    rw [h, setValues]
    cases hrepid : reply.setValue (str "repid") repid with
    | error e => simp [Except.bind, hrepid]
    | ok reply' => simp [Except.bind, hrepid]

private theorem replyIdentifier_congr {msg msg' : Message} (h : msg.key2val = msg'.key2val) :
    msg.replyIdentifier = msg'.replyIdentifier := by
  simp only [replyIdentifier, getValue, h]

/-- The callback sees the same exactly if nothing in the answer is escaped and it names the
request. -/
private theorem callbackAlike_iff (values : AcceptedValues)
    (hmsg : msg.getValue (str "repid") = .ok (decimalInt client.nextReplyId.toInt))
    (hreceived : received.getValue (str "repid") = .ok (decimalInt client.nextReplyId.toInt)) :
    client.CallbackAlike acquired acquired' msg received values ↔ client.Answered values := by
  have haccepted : ∀ call ∈ replyCalls (decimalInt client.nextReplyId.toInt) values,
      Acceptable call := by
    rw [replyCalls, List.forall_mem_cons, List.forall_mem_cons]
    exact ⟨acceptable_decimalInt (by decide) _, acceptable_repid _, values.2⟩
  obtain ⟨c, -, hcalls, hset⟩ := exists_composed acquired haccepted
  obtain ⟨c', -, hcalls', hset'⟩ := exists_composed acquired' haccepted
  have halike := Composed.sameValues_arrived_same_iff (hcalls ▸ List.cons_ne_nil _ _)
    (hcalls'.trans hcalls.symm)
  have harrives (hkeys : ∀ call ∈ c.calls, call.1.head? ≠ some 0) {reply : Message}
      (hreply : c'.message.arrived = some reply) :
      reply.replyIdentifier =
        { newMessage false 0 with key2val := travelled c.calls }.replyIdentifier := by
    obtain ⟨reply', hreply', hkey2val⟩ := Composed.arrived_of_keys (hcalls'.trans hcalls.symm ▸ hkeys)
    obtain rfl := Option.some.inj (hreply.symm.trans hreply')
    exact replyIdentifier_congr (hkey2val.trans (by rw [hcalls', hcalls]))
  rw [CallbackAlike, answer_eq hmsg, answer_eq hreceived, hset, hset', Answered, ← hcalls]
  constructor
  · rintro ⟨reply, reply', receivedReply, hreply, hreply', harrived, hnamed, hsame⟩
    obtain rfl := Except.ok.inj hreply
    obtain rfl := Except.ok.inj hreply'
    have hunescaped := halike.mp ⟨receivedReply, harrived, hsame⟩
    exact ⟨hunescaped, (harrives hunescaped.keys harrived).symm.trans hnamed⟩
  · rintro ⟨hunescaped, hnamed⟩
    obtain ⟨receivedReply, harrived, hsame⟩ := halike.mpr hunescaped
    exact ⟨_, _, receivedReply, rfl, rfl, harrived,
      (harrives hunescaped.keys harrived).trans hnamed, hsame⟩

end WaitingForReply

/-- `Scales::get_scale_keys`, `src_jni/scales.cc:349–368`, for a name with a percent sign. -/
def getScaleKeys : ServerCall where
  objId := 1
  commandId := str "getskeys"
  commandId_accepted := by decide
  values := ⟨[(str "name", str "50%")], by decide⟩

end Vuknob
