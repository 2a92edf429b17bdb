import Vuknob.Library.Runs
import Vuknob.Remote.Shortcut

/-!
# The messages of a context

`RemoteInterface::Context` keeps the messages that are not in use and hands them out again,
`src_jni/remote_interface.cc:240–264`. A message is in use until its last `std::shared_ptr` goes;
what has been done with it since it was handed out is noted beside it.
-/

namespace Vuknob

open Library Message

/-- `reply_received_callback`: as constructed, as `clear_msg_content` leaves it, or a handler. -/
inductive ReplyCallback (H : Type)
  | empty
  | ignore
  | handler (h : H)

/-- A message with its callback. -/
structure PooledMessage (H : Type) extends Message where
  replyReceivedCallback : ReplyCallback H

namespace PooledMessage

variable {H : Type}

/-- `new Message(this)`; `encoded` and `bodyLength` are indeterminate. -/
def new (encoded : Bool) (bodyLength : UInt32) : PooledMessage H :=
  ⟨newMessage encoded bodyLength, .empty⟩

/-- `set_reply_handler`, `src_jni/remote_interface.cc:58–61`. -/
def setReplyHandler (h : H) (m : PooledMessage H) : PooledMessage H :=
  { m with replyReceivedCallback := .handler h, awaitingReply := true }

/-- `recycle`, `src_jni/remote_interface.cc:110–113`. -/
def recycle (m : PooledMessage H) : PooledMessage H := ⟨m.toMessage.recycle, .ignore⟩

/-- Nothing is left in a message. -/
structure Clean (m : PooledMessage H) : Prop where
  fresh : m.toMessage.Fresh
  awaiting_eq : m.awaitingReply = false
  no_handler : ∀ h, m.replyReceivedCallback ≠ .handler h

theorem clean_new (encoded : Bool) (bodyLength : UInt32) :
    (new encoded bodyLength : PooledMessage H).Clean :=
  ⟨fresh_newMessage encoded bodyLength, rfl, fun _ ↦ nofun⟩

/-- Of what a message holds, only the buffer may be left by `recycle`. -/
theorem clean_recycle_iff {m : PooledMessage H} : m.recycle.Clean ↔ m.recycle.sbuf = [] :=
  ⟨fun h ↦ h.fresh.sbuf_eq, fun h ↦ ⟨⟨h, rfl, rfl⟩, rfl, fun _ ↦ nofun⟩⟩

end PooledMessage

/-- A message in use, the calls of `set_value` that it has accepted, and those of them that came
before `encode` wrote to its buffer. -/
structure MessageUse (H : Type) where
  message : PooledMessage H
  calls : List (StdString × StdString)
  written : Option (List (StdString × StdString))

namespace MessageUse

variable {H : Type}

/-- A message that is handed out. -/
def start (m : PooledMessage H) : MessageUse H := ⟨m, [], none⟩

/-- `set_value`; a call that throws changes nothing. -/
def setValue (key value : StdString) (u : MessageUse H) : MessageUse H :=
  match u.message.setValue key value with
  | .error _ => u
  | .ok msg =>
    { u with message := { u.message with toMessage := msg }, calls := u.calls ++ [(key, value)] }

/-- `set_reply_handler`. -/
def setReplyHandler (h : H) (u : MessageUse H) : MessageUse H :=
  { u with message := u.message.setReplyHandler h }

/-- `encode`, as `deliver_message` calls it for each handler. -/
def encode (u : MessageUse H) : MessageUse H :=
  { u with
    message := { u.message with toMessage := u.message.toMessage.encode }
    written := if u.message.encoded then u.written else some u.calls }

end MessageUse

/-- The messages of a context. -/
structure MessagePool (H : Type) where
  availableMessages : List (PooledMessage H)
  used : Nat → Option (MessageUse H)
  next : Nat

namespace MessagePool

variable {H : Type}

/-- A context that has not been used. -/
def empty : MessagePool H := ⟨[], fun _ ↦ none, 0⟩

/-- The message that `acquire_message` returns, and those that stay. -/
def pick (encoded : Bool) (bodyLength : UInt32) (s : MessagePool H) :
    PooledMessage H × List (PooledMessage H) :=
  match s.availableMessages with
  | [] => (.new encoded bodyLength, [])
  | m :: rest => (m, rest)

/-- `acquire_message`. -/
def acquireMessage (encoded : Bool) (bodyLength : UInt32) (s : MessagePool H) : MessagePool H :=
  let (m, rest) := s.pick encoded bodyLength
  { availableMessages := rest
    used := Function.update s.used s.next (some (.start m))
    next := s.next + 1 }

/-- Something is done with a message in use. -/
def use (n : Nat) (f : MessageUse H → MessageUse H) (s : MessagePool H) : Option (MessagePool H) :=
  (s.used n).map fun u ↦ { s with used := Function.update s.used n (some (f u)) }

/-- The last `std::shared_ptr` of a message goes. -/
def release (n : Nat) (s : MessagePool H) : Option (MessagePool H) :=
  (s.used n).map fun u ↦
    { s with
      availableMessages := s.availableMessages ++ [u.message.recycle]
      used := Function.update s.used n none }

/-- `acquire_reply`. If one of its calls throws, then the reply goes at once. -/
def acquireReply (encoded : Bool) (bodyLength : UInt32) (originator : Message)
    (s : MessagePool H) : Option (MessagePool H) := do
  let n := s.next
  let s ← (s.acquireMessage encoded bodyLength).use n
    (.setValue (str "id") (decimalInt msgReply.toInt))
  match originator.getValue (str "repid") with
  | .error _ => s.release n
  | .ok value =>
    if Acceptable (str "repid", value) then s.use n (.setValue (str "repid") value)
    else s.release n

end MessagePool

/-- What may be done with the messages of a context. -/
inductive MessageCommand (H : Type)
  | acquireMessage (encoded : Bool) (bodyLength : UInt32)
  | acquireReply (encoded : Bool) (bodyLength : UInt32) (originator : Message)
  | setValue (n : Nat) (key value : StdString)
  | setReplyHandler (n : Nat) (h : H)
  | encode (n : Nat)
  | release (n : Nat)

namespace MessagePool

variable {H : Type}

/-- One command. -/
def step (s : MessagePool H) (command : MessageCommand H) : Option (Unit × MessagePool H) :=
  Option.map ((), ·) <|
    match command with
    | .acquireMessage encoded bodyLength => some (s.acquireMessage encoded bodyLength)
    | .acquireReply encoded bodyLength originator => s.acquireReply encoded bodyLength originator
    | .setValue n key value => s.use n (.setValue key value)
    | .setReplyHandler n h => s.use n (.setReplyHandler h)
    | .encode n => s.use n .encode
    | .release n => s.release n

end MessagePool

/-! ## A message in use -/

namespace MessageUse

variable {H : Type}

/-- The entries that calls write. -/
def entries (calls : List (StdString × StdString)) : List (StdString × StdString) :=
  calls.map encodeEntry

/-- The body of a message on which these calls have been made. -/
def body (calls : List (StdString × StdString)) : StdString :=
  bodyText ((∅ : StringMap).insertMany (entries calls)).toList

/-- What `set_value` has counted. -/
def counted (calls : List (StdString × StdString)) : Nat := (bodyText (entries calls)).length

/-- The header and the body of a message on which these calls have been made. -/
def wire (calls : List (StdString × StdString)) : StdString :=
  snprintf08x (UInt32.ofNat (counted calls)) ++ body calls

/-- All that a message holds comes from the calls that have been made since it was handed out. -/
structure Sound (u : MessageUse H) : Prop where
  data2send_eq : u.message.data2send =
    UInt32.ofNat (counted u.calls + if u.written.isSome then headerLength else 0)
  key2val_eq : u.message.key2val = (∅ : StringMap).insertMany (entries u.calls)
  sbuf_eq : u.message.sbuf = (u.written.map wire).getD []
  front : ∀ front, u.written = some front → front <+: u.calls
  unset : u.written = none → u.message.encoded = true → u.calls = []

/-- The message has been written once at most, and not been given a value since when it is to be
written. -/
def AtMostOnce (u : MessageUse H) : Prop := u.written = none ∨ u.message.encoded = true

/-- The counter, an `int` of 32 bits, has not come to a number below the length of what has been
written. A negative one stands for more than any buffer holds. -/
def Covered (u : MessageUse H) : Prop :=
  ∀ front, u.written = some front →
    let count := (counted u.calls + headerLength) % 2 ^ 32
    2 ^ 31 ≤ count ∨ headerLength + (body front).length ≤ count

variable {u : MessageUse H}

theorem sound_start {m : PooledMessage H} (hm : m.Clean) : (start m).Sound where
  data2send_eq := hm.fresh.data2send_eq
  key2val_eq := hm.fresh.key2val_eq
  sbuf_eq := hm.fresh.sbuf_eq
  front _ := nofun
  unset _ _ := rfl

theorem counted_append (calls : List (StdString × StdString)) (call : StdString × StdString) :
    counted (calls ++ [call]) = counted calls +
      ((Serialize.encodeString call.1).length + (Serialize.encodeString call.2).length + 2) := by
  rw [counted, entries, List.map_append, bodyText_append, List.length_append, List.map_singleton,
    length_bodyText_cons]
  rfl

theorem Sound.setValue (h : u.Sound) (key value : StdString) : (u.setValue key value).Sound := by
  rw [MessageUse.setValue]
  split
  · exact h
  · next msg hset =>
    have hmsg := setValue_eq hset
    refine ⟨?_, ?_, ?_, ?_, ?_⟩
    · dsimp only
      rw [hmsg, h.data2send_eq, counted_append, ← UInt32.ofNat_add, Nat.add_right_comm]
    · dsimp only
      rw [hmsg, h.key2val_eq, entries, entries, List.map_append, Std.ExtTreeMap.insertMany_append]
      rfl
    · dsimp only
      rw [hmsg, h.sbuf_eq]
    · exact fun front hfront ↦ (h.front front hfront).trans (List.prefix_append ..)
    · intro _ hencoded
      dsimp only at hencoded
      rw [hmsg] at hencoded
      cases hencoded

theorem written_setValue (key value : StdString) : (u.setValue key value).written = u.written := by
  rw [MessageUse.setValue]
  split <;> rfl

theorem Sound.setReplyHandler (h : u.Sound) (handler : H) : (u.setReplyHandler handler).Sound :=
  ⟨h.data2send_eq, h.key2val_eq, h.sbuf_eq, h.front, h.unset⟩

theorem Sound.encode (h : u.Sound) (honce : u.AtMostOnce) : u.encode.Sound := by
  rw [MessageUse.encode]
  by_cases hencoded : u.message.encoded = true
  · have hsame : u.message.toMessage.encode = u.message.toMessage := if_pos hencoded
    rw [hsame, if_pos hencoded]
    exact h
  · have hunwritten : u.written = none := honce.resolve_right hencoded
    have hsbuf : u.message.sbuf = [] := by rw [h.sbuf_eq, hunwritten]; rfl
    have hcount : u.message.data2send = UInt32.ofNat (counted u.calls) := by
      rw [h.data2send_eq, hunwritten]
      rfl
    have hwrites : u.message.toMessage.encode = { u.message.toMessage with
        encoded := true
        sbuf := u.message.sbuf ++ snprintf08x u.message.data2send ++
          bodyText u.message.key2val.toList
        data2send := u.message.data2send + UInt32.ofNat headerLength } := if_neg hencoded
    rw [hwrites, if_neg hencoded]
    refine ⟨?_, h.key2val_eq, ?_, ?_, nofun⟩
    · rw [hcount, ← UInt32.ofNat_add]
      rfl
    · dsimp only
      rw [hsbuf, hcount, h.key2val_eq]
      rfl
    · rintro _ ⟨⟩
      exact List.prefix_rfl

/-- `encode` writes the header and the body of the message and nothing else. -/
theorem Sound.sbuf_encode (h : u.Sound) (hunwritten : u.written = none) :
    u.encode.message.sbuf = wire u.calls ∨ u.calls = [] ∧ u.encode.message.sbuf = [] := by
  have hsound := (h.encode (.inl hunwritten)).sbuf_eq
  by_cases hencoded : u.message.encoded = true
  · have hwritten : u.encode.written = none := (if_pos hencoded).trans hunwritten
    rw [hwritten] at hsound
    exact .inr ⟨h.unset hunwritten hencoded, hsound⟩
  · have hwritten : u.encode.written = some u.calls := if_neg hencoded
    rw [hwritten] at hsound
    exact .inl hsound

/-- When a message is clean after `recycle`. -/
theorem Sound.clean_recycle_iff (h : u.Sound) : u.message.recycle.Clean ↔ u.Covered := by
  rw [PooledMessage.clean_recycle_iff]
  show u.message.sbuf.drop _ = [] ↔ _
  rw [List.drop_eq_nil_iff, Covered]
  cases hwritten : u.written with
  | none =>
    have hsbuf : u.message.sbuf = [] := by rw [h.sbuf_eq, hwritten]; rfl
    rw [hsbuf]
    exact ⟨fun _ _ ↦ nofun, fun _ ↦ Nat.zero_le _⟩
  | some front =>
    have hlength : u.message.sbuf.length = headerLength + (body front).length := by
      rw [h.sbuf_eq, hwritten, Option.map_some, Option.getD_some, wire, List.length_append,
        length_snprintf08x]
      rfl
    have hcount : u.message.data2send.toNat = (counted u.calls + headerLength) % 2 ^ 32 := by
      rw [h.data2send_eq, hwritten, UInt32.toNat_ofNat']
      rfl
    rw [hcount]
    constructor
    · rintro hle _ ⟨⟩
      dsimp only
      split at hle <;> omega
    · intro hcovered
      have hfront := hcovered front rfl
      dsimp only at hfront
      split <;> omega

/-- A counter that does not come round covers what has been written. -/
theorem Sound.covered_of_lt (h : u.Sound) (hlt : counted u.calls + headerLength < 2 ^ 32) :
    u.Covered := by
  intro front hwritten
  obtain ⟨back, hback⟩ := h.front front hwritten
  have hbody := length_bodyText_insertMany (entries front)
  have hcounted : counted u.calls = counted front + (bodyText (entries back)).length := by
    rw [← hback, counted, entries, List.map_append, bodyText_append, List.length_append]
    rfl
  refine .inr ?_
  rw [Nat.mod_eq_of_lt hlt, hcounted, counted, body]
  omega

end MessageUse

/-! ## The context -/

namespace MessagePool

variable {H : Type} {s s' : MessagePool H}

/-- Every message is encoded at most once while it is in use. -/
def AtMostOneEncode (s : MessagePool H) : MessageCommand H → Prop
  | .encode n => ∀ u, s.used n = some u → u.AtMostOnce
  | _ => True

/-- When a message goes, its counter covers what has been written. -/
def CounterCovers (s : MessagePool H) : MessageCommand H → Prop
  | .release n => ∀ u, s.used n = some u → u.Covered
  | _ => True

/-- The messages that are not in use are clean, and the others hold only what is theirs. -/
structure Sound (s : MessagePool H) : Prop where
  available : ∀ m ∈ s.availableMessages, m.Clean
  used : ∀ n u, s.used n = some u → u.Sound

theorem sound_empty : (empty : MessagePool H).Sound := ⟨nofun, fun _ _ ↦ nofun⟩

theorem Sound.pick (h : s.Sound) (encoded : Bool) (bodyLength : UInt32) :
    (s.pick encoded bodyLength).1.Clean ∧ ∀ m ∈ (s.pick encoded bodyLength).2, m.Clean := by
  rw [MessagePool.pick]
  have havailable := h.available
  cases hs : s.availableMessages with
  | nil => exact ⟨PooledMessage.clean_new encoded bodyLength, nofun⟩
  | cons m rest =>
    rw [hs] at havailable
    exact List.forall_mem_cons.mp havailable

/-- One message in use is changed. -/
private theorem sound_update {used : Nat → Option (MessageUse H)}
    (h : ∀ n u, used n = some u → u.Sound) (n : Nat) {new : Option (MessageUse H)}
    (hnew : ∀ u, new = some u → u.Sound) (k : Nat) (u : MessageUse H)
    (hu : Function.update used n new k = some u) : u.Sound := by
  by_cases hk : k = n
  · rw [hk, Function.update_self] at hu
    exact hnew u hu
  · rw [Function.update_of_ne hk] at hu
    exact h k u hu

theorem Sound.acquireMessage (h : s.Sound) (encoded : Bool) (bodyLength : UInt32) :
    (s.acquireMessage encoded bodyLength).Sound := by
  obtain ⟨hpicked, hrest⟩ := h.pick encoded bodyLength
  refine ⟨hrest, sound_update h.used s.next ?_⟩
  rintro _ ⟨⟩
  exact MessageUse.sound_start hpicked

theorem use_eq {n : Nat} {u : MessageUse H} (hu : s.used n = some u)
    (f : MessageUse H → MessageUse H) :
    s.use n f = some { s with used := Function.update s.used n (some (f u)) } := by
  rw [MessagePool.use, hu, Option.map_some]

theorem release_eq {n : Nat} {u : MessageUse H} (hu : s.used n = some u) :
    s.release n = some { s with
      availableMessages := s.availableMessages ++ [u.message.recycle]
      used := Function.update s.used n none } := by
  rw [MessagePool.release, hu, Option.map_some]

/-- A message that has been handed out is in use. -/
theorem used_acquireMessage (s : MessagePool H) (encoded : Bool) (bodyLength : UInt32) :
    (s.acquireMessage encoded bodyLength).used s.next =
      some (.start (s.pick encoded bodyLength).1) := Function.update_self ..

theorem Sound.use (h : s.Sound) {n : Nat} {f : MessageUse H → MessageUse H}
    (hf : ∀ u, s.used n = some u → u.Sound → (f u).Sound) (huse : s.use n f = some s') :
    s'.Sound := by
  obtain ⟨u, hu, rfl⟩ := Option.map_eq_some_iff.mp huse
  refine ⟨h.available, sound_update h.used n ?_⟩
  rintro _ ⟨⟩
  exact hf u hu (h.used n u hu)

theorem Sound.release (h : s.Sound) {n : Nat} (hcovers : ∀ u, s.used n = some u → u.Covered)
    (hrelease : s.release n = some s') : s'.Sound := by
  obtain ⟨u, hu, rfl⟩ := Option.map_eq_some_iff.mp hrelease
  refine ⟨?_, sound_update h.used n nofun⟩
  dsimp only
  rw [List.forall_mem_append, List.forall_mem_singleton]
  exact ⟨h.available, (h.used n u hu).clean_recycle_iff.mpr (hcovers u hu)⟩

theorem Sound.acquireReply (h : s.Sound) {encoded : Bool} {bodyLength : UInt32}
    {originator : Message} (hreply : s.acquireReply encoded bodyLength originator = some s') :
    s'.Sound := by
  obtain ⟨s₁, hid, hrest⟩ := Option.bind_eq_some_iff.mp hreply
  have hsound : s₁.Sound :=
    (h.acquireMessage encoded bodyLength).use (fun _ _ hu ↦ hu.setValue _ _) hid
  -- a reply that goes at once has not been written
  have hcovers : ∀ u, s₁.used s.next = some u → u.Covered := by
    rw [use_eq (s.used_acquireMessage encoded bodyLength)] at hid
    obtain rfl := Option.some.inj hid
    intro u hu front hwritten
    dsimp only at hu
    rw [Function.update_self] at hu
    obtain rfl := Option.some.inj hu
    rw [MessageUse.written_setValue] at hwritten
    cases hwritten
  split at hrest
  · exact hsound.release hcovers hrest
  · split at hrest
    · exact hsound.use (fun _ _ hu ↦ hu.setValue _ _) hrest
    · exact hsound.release hcovers hrest

theorem Sound.step (h : s.Sound) {command : MessageCommand H} {r : Unit}
    (honce : s.AtMostOneEncode command) (hcovers : s.CounterCovers command)
    (hstep : s.step command = some (r, s')) : s'.Sound := by
  obtain ⟨t, ht, heq⟩ := Option.map_eq_some_iff.mp hstep
  obtain ⟨-, rfl⟩ := Prod.mk.inj heq
  cases command with
  | acquireMessage encoded bodyLength =>
    obtain rfl := Option.some.inj ht
    exact h.acquireMessage encoded bodyLength
  | acquireReply => exact h.acquireReply ht
  | setValue => exact h.use (fun _ _ hu ↦ hu.setValue _ _) ht
  | setReplyHandler => exact h.use (fun _ _ hu ↦ hu.setReplyHandler _) ht
  | encode => exact h.use (fun u hu hsound ↦ hsound.encode (honce u hu)) ht
  | release => exact h.release hcovers ht

/-- As long as no counter comes round, the messages that are handed out are clean, and what is
written of one is its own header and body. -/
theorem messages_clean {commands : List (MessageCommand H)}
    (hrun : Run step (fun s command _ ↦ s.AtMostOneEncode command ∧ s.CounterCovers command)
      empty commands s) :
    (∀ encoded bodyLength, (s.pick encoded bodyLength).1.Clean) ∧
    ∀ n u, s.used n = some u →
      (u.written = none → u.encode.message.sbuf = MessageUse.wire u.calls ∨
        u.calls = [] ∧ u.encode.message.sbuf = []) ∧
      (u.message.recycle.Clean ↔ u.Covered) ∧
      (MessageUse.counted u.calls + headerLength < 2 ^ 32 → u.Covered) := by
  have hsound : s.Sound := hrun.invariant Sound
    (fun _ _ _ _ hs hok hstep ↦ hs.step hok.1 hok.2 hstep) sound_empty
  refine ⟨fun encoded bodyLength ↦ (hsound.pick encoded bodyLength).1, fun n u hu ↦ ?_⟩
  have husound := hsound.used n u hu
  exact ⟨husound.sbuf_encode, husound.clean_recycle_iff, husound.covered_of_lt⟩

/-- A message is used, and handed out again. -/
theorem messages_clean_again : ∃ s : MessagePool Unit,
    Run step (fun s command _ ↦ s.AtMostOneEncode command) empty
      [.acquireMessage true 0, .setValue 0 (str "id") (str "1"), .encode 0, .release 0] s ∧
      s.availableMessages.length = 1 ∧ (s.pick true 0).1.Clean := by
  have hrun : ∃ s : MessagePool Unit,
      Run step (fun s command _ ↦ s.AtMostOneEncode command ∧ s.CounterCovers command) empty
        [.acquireMessage true 0, .setValue 0 (str "id") (str "1"), .encode 0, .release 0] s ∧
        s.availableMessages.length = 1 := by
    refine ⟨_, .cons rfl ⟨trivial, trivial⟩ (.cons rfl ⟨trivial, trivial⟩ (.cons rfl ⟨?_, trivial⟩
      (.cons rfl ⟨trivial, ?_⟩ (.nil _)))), rfl⟩
    · intro u hu
      obtain rfl := Option.some.inj hu
      exact .inl rfl
    · intro u hu front hfront
      obtain rfl := Option.some.inj hu
      obtain rfl := Option.some.inj hfront
      exact .inr (by decide)
  obtain ⟨s, hrun, hlength⟩ := hrun
  exact ⟨s, hrun.mono fun _ _ _ h ↦ h.1, hlength, (messages_clean hrun).1 true 0⟩

/-! ## A counter that comes round -/

/-- Values are set on a message in use. -/
theorem exists_run_setValues {calls : List (StdString × StdString)}
    (hcalls : ∀ call ∈ calls, Acceptable call) {n : Nat} {u : MessageUse H}
    (hu : s.used n = some u) : ∃ s' u', s'.used n = some u' ∧ u'.calls = u.calls ++ calls ∧
      u'.written = u.written ∧ s'.availableMessages = s.availableMessages ∧
      Run step (fun s command _ ↦ s.AtMostOneEncode command ∧ s.CounterCovers command) s
        (calls.map fun call ↦ .setValue n call.1 call.2) s' := by
  induction calls generalizing s u with
  | nil => exact ⟨s, u, hu, (List.append_nil _).symm, rfl, rfl, .nil s⟩
  | cons call calls ih =>
    obtain ⟨⟨h₁, h₂, h₃, h₄⟩, hrest⟩ := List.forall_mem_cons.mp hcalls
    have haccepted : (u.setValue call.1 call.2).calls = u.calls ++ [call] := by
      rw [MessageUse.setValue, setValue, if_neg h₁, if_neg h₂, if_neg h₃, if_neg h₄]
    obtain ⟨s', u', hu', hcalls', hwritten, havailable, hrun⟩ :=
      ih hrest (s := { s with
        used := Function.update s.used n (some (u.setValue call.1 call.2)) })
        (Function.update_self ..)
    refine ⟨s', u', hu', ?_, ?_, havailable, .cons (r := ()) ?_ ⟨trivial, trivial⟩ hrun⟩
    · rw [hcalls', haccepted, List.append_assoc, List.singleton_append]
    · rw [hwritten, MessageUse.written_setValue]
    · show Option.map _ (s.use n _) = _
      rw [use_eq hu]
      rfl

/-- What is set on a message is in its body. -/
theorem length_body_append (calls : List (StdString × StdString)) (call : StdString × StdString) :
    0 < (MessageUse.body (calls ++ [call])).length := by
  have hne : ((∅ : StringMap).insertMany (MessageUse.entries (calls ++ [call]))).toList ≠ [] := by
    rw [Ne, Std.ExtTreeMap.toList_eq_nil_iff, MessageUse.entries, List.map_append,
      Std.ExtTreeMap.insertMany_append]
    exact Std.ExtTreeMap.insert_ne_empty
  obtain ⟨e, es, hes⟩ := List.exists_cons_of_ne_nil hne
  rw [MessageUse.body, hes, length_bodyText_cons]
  omega

theorem counted_replicate (k : Nat) (call : StdString × StdString) :
    MessageUse.counted (List.replicate k call) = k * MessageUse.counted [call] := by
  have hone := MessageUse.counted_append [] call
  rw [List.nil_append] at hone
  induction k with
  | zero => rw [Nat.zero_mul]; rfl
  | succ k ih =>
    rw [List.replicate_succ', MessageUse.counted_append, ih, Nat.succ_mul, hone]
    exact congrArg _ (Nat.zero_add _).symm

/-- A message is written and goes. -/
theorem exists_run_encode {n : Nat} {u : MessageUse H} (hu : s.used n = some u)
    (honce : u.AtMostOnce) : ∃ s' : MessagePool H,
      s'.availableMessages = s.availableMessages ++ [u.encode.message.recycle] ∧
      Run step (fun s command _ ↦ s.AtMostOneEncode command) s [.encode n, .release n] s' := by
  have hrelease := release_eq (s := { s with used := Function.update s.used n (some u.encode) })
    (Function.update_self ..)
  refine ⟨_, rfl, .cons (congrArg (Option.map ((), ·)) (use_eq hu _)) ?_
    (.cons (congrArg (Option.map ((), ·)) hrelease) trivial (.nil _))⟩
  intro u' hu'
  obtain rfl := Option.some.inj (hu.symm.trans hu')
  exact honce

/-- Where the counter has come round, what is left of the body is in the buffer of the message that
is handed out next. -/
theorem exists_run_unclean {calls : List (StdString × StdString)} (hne : calls ≠ [])
    (hcalls : ∀ call ∈ calls, Acceptable call)
    (hcounter : (MessageUse.counted calls + headerLength) % 2 ^ 32 = headerLength) :
    ∃ (commands : List (MessageCommand H)) (s : MessagePool H),
      Run step (fun s command _ ↦ s.AtMostOneEncode command) empty commands s ∧
        ¬ (s.pick false 0).1.Clean := by
  obtain ⟨s, u, hu, hucalls, hwritten, havailable, hrun⟩ :=
    exists_run_setValues (s := empty.acquireMessage false 0) hcalls
      (empty.used_acquireMessage false 0)
  have hset : Run step (fun s command _ ↦ s.AtMostOneEncode command ∧ s.CounterCovers command)
      (empty : MessagePool H)
      (.acquireMessage false 0 :: calls.map fun call ↦ .setValue 0 call.1 call.2) s :=
    .cons rfl ⟨trivial, trivial⟩ hrun
  have hsound : s.Sound := hset.invariant Sound
    (fun _ _ _ _ hs hok hstep ↦ hs.step hok.1 hok.2 hstep) sound_empty
  have husound := hsound.used _ u hu
  have hencoded : u.message.encoded ≠ true := fun htrue ↦
    hne (hucalls.symm.trans (husound.unset hwritten htrue))
  obtain ⟨s', havailable', hencode⟩ := exists_run_encode hu (.inl hwritten)
  refine ⟨_, s', (hset.mono fun _ _ _ h ↦ h.1).append hencode, ?_⟩
  have hpick : (s'.pick false 0).1 = u.encode.message.recycle := by
    rw [pick, havailable', havailable]
    rfl
  rw [hpick, (husound.encode (.inl hwritten)).clean_recycle_iff]
  intro hcovered
  have hbody := length_body_append calls.dropLast (calls.getLast hne)
  rw [List.dropLast_append_getLast] at hbody
  have hfront := hcovered u.calls (if_neg hencoded)
  have hucalls' : u.encode.calls = calls := hucalls
  rw [hucalls', hcounter, hucalls] at hfront
  rcases hfront with hcount | hcount
  · exact absurd hcount (by decide)
  · have hcount' : headerLength + (MessageUse.body calls).length ≤ headerLength := hcount
    omega

/-- Values of 2 ^ 32 bytes in all have been counted as none, so the body is left in the buffer of a
message that is handed out again. -/
theorem not_messages_clean : ¬ ∀ (commands : List (MessageCommand Unit)) (s : MessagePool Unit),
    Run step (fun s command _ ↦ s.AtMostOneEncode command) empty commands s →
      ∀ encoded bodyLength, (s.pick encoded bodyLength).1.Clean := by
  have hcounter : (MessageUse.counted (List.replicate (2 ^ 30) (str "a", str "b")) + headerLength) %
      2 ^ 32 = headerLength := by
    have hentry : MessageUse.counted [(str "a", str "b")] = 4 := by decide
    rw [counted_replicate, hentry]
    rfl
  have hne : List.replicate (2 ^ 30) (str "a", str "b") ≠ [] := by
    rw [Ne, List.replicate_eq_nil_iff]
    exact Nat.ne_of_gt (Nat.two_pow_pos 30)
  have haccepted : ∀ call ∈ List.replicate (2 ^ 30) (str "a", str "b"), Acceptable call := by
    intro call hcall
    rw [List.eq_of_mem_replicate hcall]
    decide
  intro h
  obtain ⟨commands, s, hrun, hunclean⟩ := exists_run_unclean hne haccepted hcounter
  exact hunclean (h commands s hrun false 0)

end MessagePool

end Vuknob
