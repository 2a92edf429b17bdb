import Vuknob.Library.Runs
import Vuknob.Remote.ReadLoop
import Vuknob.Remote.Shortcut

/-!
# Requests that wait for a reply

`Client::distribute_message`, `src_jni/engine_code/client.cc:279–296`, and what
`Client::on_message_received` and `on_connection_dropped` do with the requests,
`src_jni/engine_code/client.cc:146–199`, called from `MessageHandler::do_read_body`,
`src_jni/remote_interface.cc:289–317`. A callback may return or throw each time.
-/

namespace Vuknob

open Library

/-- A message that awaits a reply, and the how many-th of them it is. -/
structure OpenRequest where
  number : Nat
  message : Message

/-- What a callback is given, and why. -/
inductive Answer
  | reply (msg : Message)
  | noReplyId
  | dropped

/-- The argument of `reply_to`. -/
def Answer.argument : Answer → Option Message
  | .reply msg => some msg
  | _ => none

/-- A call of `reply_to`, `src_jni/remote_interface.cc:62–64`. -/
structure Invocation where
  request : OpenRequest
  answer : Answer

/-- `next_reply_id` and `msg_waiting_for_reply`, `src_jni/engine_code/client.hh:38–39`, whether the
thread runs, and what has happened so far. -/
structure ReplyClient where
  nextReplyId : Int32
  msgWaitingForReply : Std.ExtTreeMap Int32 OpenRequest
  running : Bool
  requests : Nat
  invoked : List Invocation

/-- How the callbacks of the requests end, the processing of other messages, and what
`on_connection_dropped` does when the table has been cleared. -/
structure ClientBehaviour where
  callback : OpenRequest → Option Message → Ending
  handled : Ending
  flushed : Ending

/-- What happens to a client. -/
inductive ClientEvent
  | distribute (message : Message)
  | receive (msg : Message)
  | drop

namespace ReplyClient

/-- The client before the first request. -/
def initial : ReplyClient := ⟨0, ∅, true, 0, []⟩

/-- The callback of a request is called. -/
def replyTo (b : ClientBehaviour) (c : ReplyClient) (request : OpenRequest) (answer : Answer) :
    Ending × ReplyClient :=
  (b.callback request answer.argument, { c with invoked := c.invoked ++ [⟨request, answer⟩] })

/-- `distribute_message` on a message that awaits a reply,
`src_jni/engine_code/client.cc:281–292`. -/
def distributeMessage (b : ClientBehaviour) (c : ReplyClient) (message : Message) :
    Ending × ReplyClient :=
  let number := c.requests
  let c := { c with requests := c.requests + 1 }
  if c.nextReplyId ∈ c.msgWaitingForReply then c.replyTo b ⟨number, message⟩ .noReplyId
  else
    match message.setValue (str "repid") (decimalInt c.nextReplyId.toInt) with
    | .error _ => (.throws, c)
    | .ok message =>
      (.returns,
        { c with
          msgWaitingForReply := c.msgWaitingForReply.insert c.nextReplyId ⟨number, message⟩
          nextReplyId := c.nextReplyId + 1 })

/-- The loop of `on_connection_dropped`, `src_jni/engine_code/client.cc:191–193`. -/
def dropLoop (b : ClientBehaviour) : List OpenRequest → ReplyClient → Ending × ReplyClient
  | [], c => (.returns, c)
  | request :: requests, c =>
    match c.replyTo b request .dropped with
    | (.returns, c) => dropLoop b requests c
    | (ending, c) => (ending, c)

/-- `on_connection_dropped`, `src_jni/engine_code/client.cc:189–199`. -/
def onConnectionDropped (b : ClientBehaviour) (c : ReplyClient) : Ending × ReplyClient :=
  match dropLoop b (c.msgWaitingForReply.toList.map Prod.snd) c with
  | (.returns, c) => (b.flushed, { c with msgWaitingForReply := ∅ })
  | (ending, c) => (ending, c)

/-- `std::stol` on a value of a message, converted to 32 bits; `none` when it throws. -/
def number (msg : Message) (key : StdString) : Option Int32 := do
  let n ← (stol (← (msg.getValue key).toOption)).toOption
  return Int32.ofInt n.toInt

/-- `on_message_received`, `src_jni/engine_code/client.cc:108–187`. -/
def onMessageReceived (b : ClientBehaviour) (c : ReplyClient) (msg : Message) :
    Ending × ReplyClient :=
  match number msg (str "id") with
  | none => (.throws, c)
  | some identifier =>
    if identifier = Message.msgReply then
      match number msg (str "repid") with
      | none => (.throws, c)
      | some replyIdentifier =>
        match c.msgWaitingForReply[replyIdentifier]? with
        | none => (.returns, c)
        | some request =>
          match c.replyTo b request (.reply msg) with
          | (.returns, c) =>
            (.returns, { c with msgWaitingForReply := c.msgWaitingForReply.erase replyIdentifier })
          | (ending, c) => (ending, c)
    else (b.handled, c)

/-- `on_message_received` with the handlers of its exceptions,
`src_jni/remote_interface.cc:299–309`. -/
def receive (b : ClientBehaviour) (c : ReplyClient) (msg : Message) : Ending × ReplyClient :=
  match c.onMessageReceived b msg with
  | (.throws, c) => c.onConnectionDropped b
  | (ending, c) => (ending, c)

/-- An event on the thread of the client, which an exception that nothing catches ends. -/
def step (c : ReplyClient) (event : ClientEvent × ClientBehaviour) : ReplyClient :=
  if c.running then
    let (ending, c) :=
      match event.1 with
      | .distribute message => c.distributeMessage event.2 message
      | .receive msg => c.receive event.2 msg
      | .drop => c.onConnectionDropped event.2
    { c with running := ending = .returns }
  else c

/-- The callback of a request throws on its reply, and those of the requests with smaller ids
return when the connection drops. -/
def Repeats (c : ReplyClient) (event : ClientEvent × ClientBehaviour) : Prop :=
  c.running = true ∧ ∃ msg replyIdentifier request,
    event.1 = .receive msg ∧ msg.replyIdentifier = some replyIdentifier ∧
      c.msgWaitingForReply[replyIdentifier]? = some request ∧
      event.2.callback request (some msg) = .throws ∧
      ∀ id other, c.msgWaitingForReply[id]? = some other → id < replyIdentifier →
        event.2.callback other none = .returns

/-! ## What a dropped connection calls -/

/-- The requests that the loop gets to: those up to the first whose callback does not return. -/
def reached (b : ClientBehaviour) : List OpenRequest → List OpenRequest
  | [] => []
  | request :: requests =>
    request :: if b.callback request none = .returns then reached b requests else []

variable {b : ClientBehaviour} {c : ReplyClient}

theorem mem_of_mem_reached {requests : List OpenRequest} {q : OpenRequest}
    (h : q ∈ reached b requests) : q ∈ requests := by
  induction requests with
  | nil => exact h
  | cons request requests ih =>
    rw [reached] at h
    rcases List.mem_cons.mp h with rfl | h
    · exact List.mem_cons_self
    · split at h
      · exact List.mem_cons_of_mem _ (ih h)
      · cases h

theorem sublist_reached (b : ClientBehaviour) (requests : List OpenRequest) :
    (reached b requests).Sublist requests := by
  induction requests with
  | nil => exact .refl _
  | cons request requests ih =>
    rw [reached]
    split
    · exact ih.cons_cons request
    · exact (List.nil_sublist _).cons_cons request

/-- The loop does not get past a callback that does not return. -/
theorem reached_append_of_stuck {front : List OpenRequest} (back : List OpenRequest)
    {q : OpenRequest} (hq : q ∈ front) (hstuck : b.callback q none ≠ .returns) :
    reached b (front ++ back) = reached b front := by
  induction front with
  | nil => cases hq
  | cons request front ih =>
    rw [List.cons_append, reached, reached]
    split
    · next hreturns =>
      have hne : q ≠ request := fun he ↦ hstuck (he ▸ hreturns)
      rw [ih ((List.mem_cons.mp hq).resolve_left hne)]
    · rfl

/-- Past callbacks that return it gets to the next one. -/
theorem mem_reached_append {front : List OpenRequest} (back : List OpenRequest) (q : OpenRequest)
    (h : ∀ r ∈ front, b.callback r none = .returns) : q ∈ reached b (front ++ q :: back) := by
  induction front with
  | nil => exact List.mem_cons_self
  | cons request front ih =>
    rw [List.cons_append, reached, if_pos (h request List.mem_cons_self)]
    exact List.mem_cons_of_mem _ (ih fun r hr ↦ h r (List.mem_cons_of_mem _ hr))

theorem dropLoop_spec (b : ClientBehaviour) (requests : List OpenRequest) (c : ReplyClient) :
    (dropLoop b requests c).2 =
      { c with invoked := c.invoked ++ (reached b requests).map (⟨·, .dropped⟩) } := by
  induction requests generalizing c with
  | nil => simp [dropLoop, reached]
  | cons request requests ih =>
    rw [dropLoop, reached]
    cases hending : b.callback request none with
    | returns =>
      simp only [replyTo, Answer.argument, hending, if_true, ih, List.append_assoc, List.map_cons,
        List.singleton_append]
    | _ => simp [replyTo, Answer.argument, hending]

/-- The requests in the order of their ids. -/
def waitingRequests (c : ReplyClient) : List OpenRequest := c.msgWaitingForReply.toList.map Prod.snd

theorem mem_waitingRequests {q : OpenRequest} :
    q ∈ c.waitingRequests ↔ ∃ id : Int32, c.msgWaitingForReply[id]? = some q := by
  rw [waitingRequests, List.mem_map]
  constructor
  · rintro ⟨⟨id, q⟩, hmem, rfl⟩
    exact ⟨id, Std.ExtTreeMap.mem_toList_iff_getElem?_eq_some.mp hmem⟩
  · rintro ⟨id, hid⟩
    exact ⟨(id, q), Std.ExtTreeMap.mem_toList_iff_getElem?_eq_some.mpr hid, rfl⟩

/-- What becomes of a client when the connection drops. -/
theorem onConnectionDropped_spec (b : ClientBehaviour) (c : ReplyClient) :
    (c.onConnectionDropped b).2.invoked =
        c.invoked ++ (reached b c.waitingRequests).map (⟨·, .dropped⟩) ∧
      (c.onConnectionDropped b).2.requests = c.requests ∧
      ((c.onConnectionDropped b).2.msgWaitingForReply = ∅ ∨
        (c.onConnectionDropped b).1 ≠ .returns ∧
          (c.onConnectionDropped b).2.msgWaitingForReply = c.msgWaitingForReply) := by
  have hloop := dropLoop_spec b c.waitingRequests c
  rw [onConnectionDropped, ← waitingRequests]
  cases hresult : dropLoop b c.waitingRequests c with
  | mk ending c' =>
    rw [hresult] at hloop
    obtain rfl := hloop
    cases ending with
    | returns => exact ⟨rfl, rfl, .inl rfl⟩
    | _ => exact ⟨rfl, rfl, .inr ⟨nofun, rfl⟩⟩

/-- A waiting request with those before and behind it. -/
theorem exists_waitingRequests {id : Int32} {q : OpenRequest}
    (h : c.msgWaitingForReply[id]? = some q) :
    ∃ front back, c.waitingRequests = front ++ q :: back ∧
      ∀ r, r ∈ front ↔ ∃ j < id, c.msgWaitingForReply[j]? = some r := by
  have hordered : c.msgWaitingForReply.toList.Pairwise fun x y ↦ x.1 < y.1 :=
    c.msgWaitingForReply.ordered_keys_toList.imp Std.compare_eq_lt.mp
  have hmem : (id, q) ∈ c.msgWaitingForReply.toList :=
    Std.ExtTreeMap.mem_toList_iff_getElem?_eq_some.mpr h
  obtain ⟨front, back, hsplit⟩ := List.append_of_mem hmem
  rw [hsplit, List.pairwise_append] at hordered
  refine ⟨front.map Prod.snd, back.map Prod.snd, ?_, fun r ↦ ?_⟩
  · rw [waitingRequests, hsplit, List.map_append, List.map_cons]
  · rw [List.mem_map]
    constructor
    · rintro ⟨⟨j, r⟩, hj, rfl⟩
      refine ⟨j, hordered.2.2 _ hj _ List.mem_cons_self, ?_⟩
      rw [← Std.ExtTreeMap.mem_toList_iff_getElem?_eq_some, hsplit]
      exact List.mem_append_left _ hj
    · rintro ⟨j, hlt, hj⟩
      refine ⟨(j, r), ?_, rfl⟩
      rw [← Std.ExtTreeMap.mem_toList_iff_getElem?_eq_some, hsplit, List.mem_append,
        List.mem_cons] at hj
      rcases hj with hj | hj | hj
      · exact hj
      · rw [(Prod.mk.inj hj).1] at hlt
        exact absurd hlt Int32.lt_irrefl
      · have hgt := (List.pairwise_cons.mp hordered.2.1).1 _ hj
        exact absurd (Int32.lt_trans hlt hgt) Int32.lt_irrefl

/-! ## At most once -/

end ReplyClient

/-- The numbers of the requests whose callbacks have been called. -/
def invokedNumbers (invoked : List Invocation) : List Nat := invoked.map fun i ↦ i.request.number

/-- A reply that a callback is given carries the id that the request has been given. -/
def Invocation.Matches (i : Invocation) : Prop :=
  ∀ msg, i.answer = .reply msg → ∃ id, msg.replyIdentifier = some id ∧
    i.request.message.getValue (str "repid") = .ok (decimalInt id.toInt)

namespace ReplyClient

variable {b : ClientBehaviour} {c c' : ReplyClient}

/-- Every request waits under the id in its message, and at one place, and no callback has been
called twice. -/
structure Sound (c : ReplyClient) : Prop where
  repid : ∀ (id : Int32) q, c.msgWaitingForReply[id]? = some q →
    q.message.getValue (str "repid") = .ok (decimalInt id.toInt)
  apart : ∀ (id id' : Int32) q q', c.msgWaitingForReply[id]? = some q →
    c.msgWaitingForReply[id']? = some q' → q.number = q'.number → id = id'
  waiting : ∀ (id : Int32) q, c.msgWaitingForReply[id]? = some q → q.number < c.requests
  invoked : ∀ n ∈ invokedNumbers c.invoked, n < c.requests
  once : (invokedNumbers c.invoked).Nodup
  matching : ∀ i ∈ c.invoked, i.Matches

/-- As long as the thread runs, no callback of a waiting request has been called. -/
def Fresh (c : ReplyClient) : Prop :=
  ∀ (id : Int32) q, c.msgWaitingForReply[id]? = some q → q.number ∉ invokedNumbers c.invoked

theorem invokedNumbers_append (invoked invoked' : List Invocation) :
    invokedNumbers (invoked ++ invoked') = invokedNumbers invoked ++ invokedNumbers invoked' :=
  List.map_append

theorem invokedNumbers_dropped (requests : List OpenRequest) :
    invokedNumbers (requests.map (⟨·, .dropped⟩)) = requests.map OpenRequest.number := by
  rw [invokedNumbers, List.map_map]
  rfl

theorem Sound.nodup_waiting (h : c.Sound) : (c.waitingRequests.map OpenRequest.number).Nodup := by
  rw [waitingRequests, List.map_map, List.Nodup, List.pairwise_map]
  refine c.msgWaitingForReply.distinct_keys_toList.imp_of_mem fun {x y} hx hy hne he ↦ hne ?_
  have hx := Std.ExtTreeMap.mem_toList_iff_getElem?_eq_some.mp hx
  have hy := Std.ExtTreeMap.mem_toList_iff_getElem?_eq_some.mp hy
  rw [h.apart x.1 y.1 x.2 y.2 hx hy he]
  exact Std.ReflCmp.compare_self

/-- A dropped connection calls nothing twice if the requests that the loop gets to have not been
called. -/
theorem Sound.drop (h : c.Sound)
    (hfresh : ∀ q ∈ reached b c.waitingRequests, q.number ∉ invokedNumbers c.invoked) :
    (c.onConnectionDropped b).2.Sound := by
  obtain ⟨hinvoked, hrequests, htable⟩ := onConnectionDropped_spec b c
  have hkept : ∀ (id : Int32) q, (c.onConnectionDropped b).2.msgWaitingForReply[id]? = some q →
      c.msgWaitingForReply[id]? = some q := by
    intro id q hq
    rcases htable with hempty | ⟨-, hsame⟩
    · rw [hempty, Std.ExtTreeMap.getElem?_empty] at hq
      cases hq
    · rwa [hsame] at hq
  have hwaiting : ∀ q ∈ reached b c.waitingRequests, q.number < c.requests := by
    intro q hq
    obtain ⟨id, hid⟩ := mem_waitingRequests.mp (mem_of_mem_reached hq)
    exact h.waiting id q hid
  refine ⟨fun id q hq ↦ h.repid id q (hkept id q hq), fun id id' q q' hq hq' ↦
    h.apart id id' q q' (hkept id q hq) (hkept id' q' hq'), fun id q hq ↦ ?_, fun n hn ↦ ?_, ?_,
    fun i hi ↦ ?_⟩
  · rw [hrequests]
    exact h.waiting id q (hkept id q hq)
  · rw [hinvoked, invokedNumbers_append, invokedNumbers_dropped, List.mem_append] at hn
    rw [hrequests]
    rcases hn with hn | hn
    · exact h.invoked n hn
    · obtain ⟨q, hq, rfl⟩ := List.mem_map.mp hn
      exact hwaiting q hq
  · rw [hinvoked, invokedNumbers_append, invokedNumbers_dropped]
    refine List.nodup_append.mpr ⟨h.once, ?_, ?_⟩
    · exact h.nodup_waiting.sublist ((sublist_reached b _).map _)
    · rintro n hn _ hm rfl
      obtain ⟨q, hq, rfl⟩ := List.mem_map.mp hm
      exact hfresh q hq hn
  · rw [hinvoked, List.mem_append, List.mem_map] at hi
    rcases hi with hi | ⟨q, -, rfl⟩
    · exact h.matching i hi
    · nofun

/-- After a drop nothing waits, or the thread has ended. -/
theorem fresh_drop (b : ClientBehaviour) (c : ReplyClient)
    (hreturns : (c.onConnectionDropped b).1 = .returns) : (c.onConnectionDropped b).2.Fresh := by
  intro id q hq
  rcases (onConnectionDropped_spec b c).2.2 with hempty | ⟨hne, -⟩
  · rw [hempty, Std.ExtTreeMap.getElem?_empty] at hq
    cases hq
  · exact absurd hreturns hne

/-- The id in a message that has been given one. -/
theorem getValue_repid {msg msg' : Message} {id : Int32}
    (h : msg.setValue (str "repid") (decimalInt id.toInt) = .ok msg') :
    msg'.getValue (str "repid") = .ok (decimalInt id.toInt) := by
  have hkey : Serialize.encodeString (str "repid") = str "repid" := by decide
  have hvalue : Serialize.encodeString (decimalInt id.toInt) = decimalInt id.toInt := by
    have hplain := fun c hc ↦ mem_decimalInt (v := id.toInt) (c := c) hc
    rw [Serialize.encodeString_of_ne (decimalInt_ne_nil _),
      cString_of_notMem fun h ↦ (hplain 0 h).1 rfl,
      Serialize.flatMap_escape_of_plain (percent_notMem_decimalInt _)
        (fun h ↦ (hplain 61 h).2.2 rfl) fun h ↦ (hplain 59 h).2.1 rfl]
  rw [Message.setValue_eq h, Message.getValue, hkey, hvalue, Std.ExtTreeMap.getElem?_insert_self]

/-- Only requests before the last one have been called or wait. -/
theorem Sound.requests_notMem (h : c.Sound) : c.requests ∉ invokedNumbers c.invoked :=
  fun hmem ↦ Nat.lt_irrefl _ (h.invoked _ hmem)

/-- One more callback that has not been called. -/
theorem Sound.replyTo (h : c.Sound) {q : OpenRequest} {answer : Answer}
    (hlt : q.number < c.requests) (hfresh : q.number ∉ invokedNumbers c.invoked)
    (hmatches : (Invocation.mk q answer).Matches) : (c.replyTo b q answer).2.Sound where
  repid := h.repid
  apart := h.apart
  waiting := h.waiting
  invoked n hn := by
    rw [ReplyClient.replyTo, invokedNumbers_append, List.mem_append] at hn
    rcases hn with hn | hn
    · exact h.invoked n hn
    · exact List.mem_singleton.mp hn ▸ hlt
  once := by
    rw [ReplyClient.replyTo, invokedNumbers_append]
    refine List.nodup_append.mpr ⟨h.once, List.nodup_singleton _, ?_⟩
    rintro n hn _ hm rfl
    obtain rfl : n = q.number := List.mem_singleton.mp hm
    exact hfresh hn
  matching i hi := by
    rcases List.mem_append.mp hi with hi | hi
    · exact h.matching i hi
    · exact List.mem_singleton.mp hi ▸ hmatches

/-- A message that awaits a reply waits under a free id, or is told at once that there is none. -/
theorem Sound.distribute (h : c.Sound) (hfresh : c.Fresh) (message : Message) :
    (c.distributeMessage b message).2.Sound ∧
      ((c.distributeMessage b message).1 = .returns → (c.distributeMessage b message).2.Fresh) := by
  have hcounted : Sound { c with requests := c.requests + 1 } :=
    { h with
      waiting := fun id q hq ↦ Nat.lt_succ_of_lt (h.waiting id q hq)
      invoked := fun n hn ↦ Nat.lt_succ_of_lt (h.invoked n hn) }
  rw [distributeMessage]
  split
  · refine ⟨hcounted.replyTo (Nat.lt_succ_self _) h.requests_notMem nofun, fun _ id q hq ↦ ?_⟩
    rw [ReplyClient.replyTo, invokedNumbers_append, List.mem_append, not_or]
    refine ⟨hfresh id q hq, fun hmem ↦ ?_⟩
    have hlast : q.number = c.requests := List.mem_singleton.mp hmem
    exact Nat.ne_of_lt (h.waiting id q hq) hlast
  · next hfree =>
    split
    · exact ⟨hcounted, nofun⟩
    · next message' hmessage =>
      have hnew : ∀ (id : Int32) q,
          (c.msgWaitingForReply.insert c.nextReplyId ⟨c.requests, message'⟩)[id]? = some q →
            id = c.nextReplyId ∧ q = ⟨c.requests, message'⟩ ∨
              id ≠ c.nextReplyId ∧ c.msgWaitingForReply[id]? = some q := by
        intro id q hq
        rw [Std.ExtTreeMap.getElem?_insert] at hq
        split at hq
        · next heq =>
          exact .inl ⟨(Std.LawfulEqOrd.eq_of_compare heq).symm, (Option.some.inj hq).symm⟩
        · next hne => exact .inr ⟨fun he ↦ hne (he ▸ Std.ReflCmp.compare_self), hq⟩
      refine ⟨⟨fun id q hq ↦ ?_, fun id id' q q' hq hq' he ↦ ?_, fun id q hq ↦ ?_, hcounted.invoked,
        h.once, h.matching⟩, fun _ id q hq ↦ ?_⟩
      · rcases hnew id q hq with ⟨rfl, rfl⟩ | ⟨-, hq⟩
        · exact getValue_repid hmessage
        · exact h.repid id q hq
      · rcases hnew id q hq with ⟨rfl, rfl⟩ | ⟨-, hq⟩ <;>
          rcases hnew id' q' hq' with ⟨rfl, rfl⟩ | ⟨-, hq'⟩
        · rfl
        · exact absurd (h.waiting id' q' hq') (he ▸ Nat.lt_irrefl _)
        · exact absurd (h.waiting id q hq) (he ▸ Nat.lt_irrefl _)
        · exact h.apart id id' q q' hq hq' he
      · rcases hnew id q hq with ⟨rfl, rfl⟩ | ⟨-, hq⟩
        · exact Nat.lt_succ_self _
        · exact Nat.lt_succ_of_lt (h.waiting id q hq)
      · rcases hnew id q hq with ⟨rfl, rfl⟩ | ⟨-, hq⟩
        · exact h.requests_notMem
        · exact hfresh id q hq

/-- The id that a reply carries, as `on_message_received` reads it. -/
theorem replyIdentifier_eq_some {msg : Message} {id : Int32} :
    msg.replyIdentifier = some id ↔
      number msg (str "id") = some Message.msgReply ∧ number msg (str "repid") = some id := by
  simp only [Message.replyIdentifier, number, Option.bind_eq_bind, Option.bind_eq_some_iff]
  constructor
  · rintro ⟨text, htext, n, hn, h⟩
    by_cases hreply : Int32.ofInt n.toInt = Message.msgReply
    · rw [if_pos hreply, Option.bind_eq_some_iff] at h
      obtain ⟨text', htext', h⟩ := h
      exact ⟨⟨text, htext, n, hn, congrArg some hreply⟩, text', htext',
        Option.bind_eq_some_iff.mp h⟩
    · rw [if_neg hreply] at h
      cases h
  · rintro ⟨⟨text, htext, n, hn, hreply⟩, text', htext', m, hm, hid⟩
    refine ⟨text, htext, n, hn, ?_⟩
    rw [if_pos (Option.some.inj hreply), htext', Option.bind_some, hm]
    exact hid

/-- A message that is not a reply to a waiting request calls nothing. -/
theorem onMessageReceived_other (b : ClientBehaviour) {msg : Message}
    (h : ∀ id q, msg.replyIdentifier = some id → c.msgWaitingForReply[id]? ≠ some q) :
    (c.onMessageReceived b msg).2 = c := by
  rw [onMessageReceived]
  split
  · rfl
  · next identifier hid =>
    split
    · next hreply =>
      split
      · rfl
      · next replyIdentifier hrepid =>
        split
        · rfl
        · next q hq =>
          exact absurd hq (h _ q (replyIdentifier_eq_some.mpr ⟨hreply ▸ hid, hrepid⟩))
    · rfl

/-- A reply calls the callback of its request. -/
theorem onMessageReceived_reply (b : ClientBehaviour) {msg : Message} {id : Int32} {q : OpenRequest}
    (hid : msg.replyIdentifier = some id) (hq : c.msgWaitingForReply[id]? = some q) :
    c.onMessageReceived b msg =
      (b.callback q (some msg),
        if b.callback q (some msg) = .returns then
          { (c.replyTo b q (.reply msg)).2 with
            msgWaitingForReply := c.msgWaitingForReply.erase id }
        else (c.replyTo b q (.reply msg)).2) := by
  obtain ⟨hreply, hrepid⟩ := replyIdentifier_eq_some.mp hid
  simp only [onMessageReceived, hreply, if_true, hrepid, hq, replyTo, Answer.argument]
  cases b.callback q (some msg) <;> rfl

/-- What an entry of the table without one of its entries is. -/
theorem getElem?_erase_eq_some {id j : Int32} {q : OpenRequest}
    (h : (c.msgWaitingForReply.erase id)[j]? = some q) :
    j ≠ id ∧ c.msgWaitingForReply[j]? = some q := by
  rw [Std.ExtTreeMap.getElem?_erase] at h
  split at h
  · cases h
  · next hne => exact ⟨fun he ↦ hne (he ▸ Std.ReflCmp.compare_self), h⟩

/-- A request that has been answered waits no more. -/
theorem Sound.erase (h : c.Sound) (id : Int32) :
    Sound { c with msgWaitingForReply := c.msgWaitingForReply.erase id } :=
  { h with
    repid := fun j q hq ↦ h.repid j q (getElem?_erase_eq_some hq).2
    waiting := fun j q hq ↦ h.waiting j q (getElem?_erase_eq_some hq).2
    apart := fun j j' q q' hq hq' ↦
      h.apart j j' q q' (getElem?_erase_eq_some hq).2 (getElem?_erase_eq_some hq').2 }

/-- The loop does not get to a request behind one whose callback does not return. -/
theorem Sound.number_ne_of_stuck (h : c.Sound) {id j : Int32} {q stuck r : OpenRequest}
    (hq : c.msgWaitingForReply[id]? = some q) (hj : c.msgWaitingForReply[j]? = some stuck)
    (hlt : j < id) (hstuck : b.callback stuck none ≠ .returns)
    (hr : r ∈ reached b c.waitingRequests) : r.number ≠ q.number := by
  obtain ⟨front, back, hsplit, hfront⟩ := exists_waitingRequests hq
  rw [hsplit, reached_append_of_stuck _ ((hfront stuck).mpr ⟨j, hlt, hj⟩) hstuck] at hr
  obtain ⟨k, hk, hkr⟩ := (hfront r).mp (mem_of_mem_reached hr)
  intro he
  rw [h.apart k id r q hkr hq he] at hk
  exact Int32.lt_irrefl hk

/-- What a received message does, unless a callback is called again. -/
theorem Sound.receive (h : c.Sound) (hfresh : c.Fresh) {msg : Message}
    (hrepeats : ¬ c.Repeats (.receive msg, b)) (hrunning : c.running = true) :
    (c.receive b msg).2.Sound ∧ ((c.receive b msg).1 = .returns → (c.receive b msg).2.Fresh) := by
  have hdrop : ∀ q ∈ reached b c.waitingRequests, q.number ∉ invokedNumbers c.invoked := by
    intro q hq
    obtain ⟨id, hid⟩ := mem_waitingRequests.mp (mem_of_mem_reached hq)
    exact hfresh id q hid
  rw [ReplyClient.receive]
  by_cases hmatch : ∃ id q, msg.replyIdentifier = some id ∧ c.msgWaitingForReply[id]? = some q
  · obtain ⟨id, q, hid, hq⟩ := hmatch
    have hsound : (c.replyTo b q (.reply msg)).2.Sound := by
      refine h.replyTo (h.waiting id q hq) (hfresh id q hq) fun msg' he ↦ ⟨id, ?_, h.repid id q hq⟩
      cases he
      exact hid
    rw [onMessageReceived_reply b hid hq]
    cases hending : b.callback q (some msg) with
    | returns =>
      refine ⟨hsound.erase id, fun _ j r hr ↦ ?_⟩
      obtain ⟨hne, hr⟩ := getElem?_erase_eq_some hr
      show r.number ∉ invokedNumbers (c.invoked ++ [_])
      rw [invokedNumbers_append, List.mem_append, not_or]
      exact ⟨hfresh j r hr, fun hmem ↦ hne (h.apart j id r q hr hq (List.mem_singleton.mp hmem))⟩
    | throws =>
      refine ⟨hsound.drop fun r hr ↦ ?_, fresh_drop b _⟩
      have hr : r ∈ reached b c.waitingRequests := hr
      show r.number ∉ invokedNumbers (c.invoked ++ [_])
      rw [invokedNumbers_append, List.mem_append, not_or]
      refine ⟨hdrop r hr, fun hmem ↦ hrepeats ⟨hrunning, msg, id, q, rfl, hid, hq, hending, ?_⟩⟩
      intro j stuck hj hlt
      refine Classical.byContradiction fun hstuck ↦ ?_
      exact h.number_ne_of_stuck hq hj hlt hstuck hr (List.mem_singleton.mp hmem)
    | escapes => exact ⟨hsound, nofun⟩
  · have hsame := onMessageReceived_other b fun id q hid hq ↦ hmatch ⟨id, q, hid, hq⟩
    cases hresult : c.onMessageReceived b msg with
    | mk ending c' =>
      rw [hresult] at hsame
      obtain rfl : c' = c := hsame
      cases ending with
      | throws => exact ⟨h.drop hdrop, fresh_drop b c'⟩
      | returns => exact ⟨h, fun _ ↦ hfresh⟩
      | escapes => exact ⟨h, nofun⟩

/-- Where a callback throws on its reply and the others return, it is called again. -/
theorem not_nodup_of_repeats {event : ClientEvent × ClientBehaviour} (h : c.Repeats event) :
    ¬ (invokedNumbers (c.step event).invoked).Nodup := by
  obtain ⟨hrunning, msg, id, q, hevent, hid, hq, hthrows, hreturn⟩ := h
  obtain ⟨front, back, hsplit, hfront⟩ := exists_waitingRequests hq
  have hmem : q ∈ reached event.2 c.waitingRequests := by
    rw [hsplit]
    refine mem_reached_append back q fun r hr ↦ ?_
    obtain ⟨j, hlt, hj⟩ := (hfront r).mp hr
    exact hreturn j r hj hlt
  let c₁ := (c.replyTo event.2 q (.reply msg)).2
  have hinvoked : (c.step event).invoked = (c₁.onConnectionDropped event.2).2.invoked := by
    rw [step, if_pos hrunning]
    simp only [hevent, ReplyClient.receive, onMessageReceived_reply event.2 hid hq, hthrows,
      reduceCtorEq, if_false]
    rfl
  rw [hinvoked, (onConnectionDropped_spec event.2 c₁).1, invokedNumbers_append,
    invokedNumbers_dropped]
  intro hnodup
  refine (List.nodup_append.mp hnodup).2.2 q.number ?_ q.number (List.mem_map_of_mem hmem) rfl
  show q.number ∈ invokedNumbers (c.invoked ++ [_])
  rw [invokedNumbers_append]
  exact List.mem_append_right _ (List.mem_singleton.mpr rfl)

/-- What holds as long as no callback is called again. -/
structure Invariant (c : ReplyClient) : Prop where
  sound : c.Sound
  fresh : c.running = true → c.Fresh

theorem invariant_initial : Invariant initial where
  sound :=
    { repid := fun id q hq ↦ by simp [initial] at hq
      apart := fun id id' q q' hq ↦ by simp [initial] at hq
      waiting := fun id q hq ↦ by simp [initial] at hq
      invoked := nofun
      once := .nil
      matching := nofun }
  fresh _ id q hq := by simp [initial] at hq

/-- What an event keeps. -/
theorem Invariant.step (h : c.Invariant) {event : ClientEvent × ClientBehaviour}
    (hrepeats : ¬ c.Repeats event) : (c.step event).Invariant := by
  rw [ReplyClient.step]
  split
  · next hrunning =>
    have hfresh := h.fresh hrunning
    have hstep : ∀ result : Ending × ReplyClient,
        result.2.Sound ∧ (result.1 = .returns → result.2.Fresh) →
          Invariant { result.2 with running := result.1 = .returns } :=
      fun result hresult ↦
        { sound := { hresult.1 with }
          fresh := fun hrunning ↦ hresult.2 (of_decide_eq_true hrunning) }
    cases event with
    | mk event b =>
      cases event with
      | distribute message => exact hstep _ (h.sound.distribute hfresh message)
      | receive msg => exact hstep _ (h.sound.receive hfresh hrepeats hrunning)
      | drop =>
        refine hstep _ ⟨h.sound.drop fun q hq ↦ ?_, fresh_drop b c⟩
        obtain ⟨id, hid⟩ := mem_waitingRequests.mp (mem_of_mem_reached hq)
        exact hfresh id q hid
  · exact h

/-- In every run in which no callback throws on its reply before the connection drops for it, every
callback is called at most once, with a reply that carries the id of its request or with none, and
requests that wait have different ids. An event calls a callback again exactly if it does that. -/
theorem replies_once {events : List (ClientEvent × ClientBehaviour)}
    (hrun : Run (fun c event ↦ some ((), c.step event)) (fun c event _ ↦ ¬ c.Repeats event) initial
      events c) :
    (invokedNumbers c.invoked).Nodup ∧ (∀ i ∈ c.invoked, i.Matches) ∧
      (∀ (id : Int32) q, c.msgWaitingForReply[id]? = some q →
        q.message.getValue (str "repid") = .ok (decimalInt id.toInt)) ∧
      (∀ (id id' : Int32) q q', c.msgWaitingForReply[id]? = some q →
        c.msgWaitingForReply[id']? = some q' → q.number = q'.number → id = id') ∧
      ∀ event, (invokedNumbers (c.step event).invoked).Nodup ↔ ¬ c.Repeats event := by
  have hkeep : ∀ c event r c', Invariant c → ¬ c.Repeats event →
      some ((), c.step event) = some (r, c') → Invariant c' := by
    rintro c event r c' hc hrepeats hstep
    obtain ⟨-, rfl⟩ := Prod.mk.inj (Option.some.inj hstep)
    exact hc.step hrepeats
  have h := hrun.invariant Invariant hkeep invariant_initial
  refine ⟨h.sound.once, h.sound.matching, h.sound.repid, h.sound.apart, fun event ↦ ⟨?_, ?_⟩⟩
  · exact fun hnodup hrepeats ↦ not_nodup_of_repeats hrepeats hnodup
  · exact fun hrepeats ↦ (h.step hrepeats).sound.once

/-- The reply to the first request. -/
def firstReply : Message :=
  { Message.newMessage false 0 with
    key2val := (∅ : StringMap).insertMany [(str "id", str "-6"), (str "repid", str "0")] }

/-- The callback of the first request throws on its reply, and is called again with nothing. -/
theorem not_replies_once :
    let throwing : ClientBehaviour :=
      ⟨fun _ argument ↦ if argument.isSome then .throws else .returns, .returns, .returns⟩
    let request : Message := { Message.newMessage false 0 with awaitingReply := true }
    let c := (initial.step (.distribute request, throwing)).step (.receive firstReply, throwing)
    ¬ (invokedNumbers c.invoked).Nodup ∧
      c.invoked.map (fun i ↦ (i.request.number, i.answer.argument.isSome)) =
        [(0, true), (0, false)] := by
  decide

/-- Two requests, of which the first one is answered, and then the connection drops. -/
theorem replies_once_two :
    let returning : ClientBehaviour := ⟨fun _ _ ↦ .returns, .returns, .returns⟩
    let request : Message := { Message.newMessage false 0 with awaitingReply := true }
    ∃ c, Run (fun c event ↦ some ((), c.step event)) (fun c event _ ↦ ¬ c.Repeats event) initial
        [(.distribute request, returning), (.distribute request, returning),
          (.receive firstReply, returning), (.drop, returning)] c ∧
      (invokedNumbers c.invoked).Nodup := by
  intro returning request
  have hrepeats : ∀ c event, ¬ Repeats c (event, returning) := by
    rintro c event ⟨-, msg, id, q, -, -, -, hthrows, -⟩
    cases hthrows
  obtain ⟨c, hrun⟩ : ∃ c, Run (fun c event ↦ some ((), c.step event))
      (fun c event _ ↦ ¬ c.Repeats event) initial [(.distribute request, returning),
        (.distribute request, returning), (.receive firstReply, returning), (.drop, returning)] c :=
    ⟨_, .cons rfl (hrepeats _ _) (.cons rfl (hrepeats _ _) (.cons rfl (hrepeats _ _)
      (.cons rfl (hrepeats _ _) (.nil _))))⟩
  exact ⟨c, hrun, (replies_once hrun).1⟩

end ReplyClient

end Vuknob
