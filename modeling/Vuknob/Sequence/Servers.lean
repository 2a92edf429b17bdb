import Vuknob.Library.Runs
import Vuknob.Sequence.Requests

/-!
# The sequences of a server

All server-side sequences share the static `pattern_id_allocator`,
`src_jni/engine_code/sequence.cc:37`. Requests come in any order, for any of the sequences, and they
are what a client sends: a message that cannot be read throws before it changes anything.
-/

namespace Vuknob

open Library

/-- The identity of an object, see `SequenceServer`. -/
abbrev ObjectId := {objId : Int32 // 0 ≤ objId.toInt}

/-- The sequences with the allocator of their pattern ids. -/
structure SequenceServers where
  sequence : ObjectId → Sequence
  patternIdAllocator : IDAllocator

/-- What a handler is to do, after it has read its arguments. -/
inductive SequenceOp
  | addPattern (newName : StdString)
  | request (r : SequenceRequest)

/-- What the message asks for. -/
def Message.sequenceOp (msg : Message) : Option SequenceOp :=
  if msg.value (str "commandid") = .ok (str "req_add_ptrn") then
    (msg.value (str "name")).toOption.map .addPattern
  else (SequenceRequest.decode msg).toOption.join.map .request

namespace SequenceServer

/-- What the machine operation of a handler leaves. -/
def perform (srv : SequenceServer) : SequenceOp → SequenceServer
  | .addPattern newName =>
    { srv with
      sequence := srv.sequence.processAddPattern newName srv.patternIdAllocator.getId.1
      patternIdAllocator := srv.patternIdAllocator.getId.2 }
  | .request (.deletePattern patternId) =>
    match srv.sequence.processDelPattern patternId with
    | (false, _) => srv
    | (true, sequence) =>
      { srv with
        sequence := sequence
        patternIdAllocator := (srv.patternIdAllocator.freeId patternId).getD srv.patternIdAllocator }
  | .request (.insertPatternInSequence pin) =>
    match srv.sequence.processAddPatternInstance pin with
    | some (true, sequence) => { srv with sequence := sequence }
    | _ => srv
  | .request (.deletePatternFromSequence pin) =>
    { srv with sequence := srv.sequence.processDelPatternInstance pin }
  | .request (.addNote patternId note) =>
    { srv with sequence := srv.sequence.processAddNote patternId note }
  | .request (.deleteNote patternId note) =>
    { srv with sequence := srv.sequence.processDeleteNote patternId note }

theorem sendMessage_snd (srv : SequenceServer) (acquired : Message) (commandId : StdString)
    (calls : List (StdString × StdString)) : (srv.sendMessage acquired commandId calls).2 = srv := by
  rw [sendMessage]
  split <;> rfl

/-- A message changes what its machine operation changes, also where the handler throws later. -/
theorem processMessageServer_snd (srv : SequenceServer) (acquired msg : Message) :
    (srv.processMessageServer acquired msg).2 = msg.sequenceOp.elim srv srv.perform := by
  cases hcommand : msg.value (str "commandid") with
  | error e =>
    have hdecode : SequenceRequest.decode msg = .error e := by
      rw [SequenceRequest.decode, hcommand]
      rfl
    rw [processMessageServer, Message.sequenceOp, hcommand, if_neg (by simp), hdecode]
    rfl
  | ok commandId =>
    rw [processMessageServer, Message.sequenceOp, hcommand]
    by_cases hadd : commandId = str "req_add_ptrn"
    · simp only [hadd, if_true, handleReqAddPattern]
      cases msg.value (str "name") with
      | error e => rfl
      | ok newName => exact sendMessage_snd ..
    · rw [if_neg fun heq ↦ hadd (Except.ok.inj heq), SequenceRequest.decode_eq hcommand]
      simp only [hadd, if_false]
      split_ifs
      · rw [handleReqDelPattern]
        cases msg.uintValue (str "pattern_id") with
        | error e => rfl
        | ok patternId =>
          show _ = srv.perform (.request (.deletePattern patternId))
          dsimp only [perform]
          rcases srv.sequence.processDelPattern patternId with ⟨_ | _, sequence⟩
          · rfl
          · dsimp only
            cases srv.patternIdAllocator.freeId patternId with
            | none => rfl
            | some allocator => exact sendMessage_snd ..
      · rw [handleReqAddPatternInstance]
        cases msg.patternInstance with
        | error e => rfl
        | ok pin =>
          show _ = srv.perform (.request (.insertPatternInSequence pin))
          dsimp only [perform]
          rcases srv.sequence.processAddPatternInstance pin with _ | ⟨_ | _, sequence⟩
          · rfl
          · rfl
          · exact sendMessage_snd ..
      · rw [handleReqDelPatternInstance]
        cases msg.patternInstance with
        | error e => rfl
        | ok pin => exact sendMessage_snd ..
      · rw [handleReqAddNote]
        cases msg.uintValue (str "pattern_id") with
        | error e => rfl
        | ok patternId =>
          cases msg.note with
          | error e => rfl
          | ok note => exact sendMessage_snd ..
      · rw [handleReqDelNote]
        cases msg.note with
        | error e => rfl
        | ok note =>
          cases msg.uintValue (str "pattern_id") with
          | error e => rfl
          | ok patternId => exact sendMessage_snd ..
      · rfl

end SequenceServer

/-- `IDAllocator`, `src_jni/common.hh:60–64`. -/
def IDAllocator.new (initialSize : UInt32) : IDAllocator where
  availableIds := Std.ExtTreeSet.ofList ((List.range initialSize.toNat).map UInt32.ofNat)
  totalAmount := initialSize

namespace Sequence

/-- The id of the pattern under a key. -/
def idAt (s : Sequence) (key : UInt32) : Option UInt32 := s.patterns[key]?.map Pattern.id

theorem idAt_processAddPattern (s : Sequence) (newName : StdString) (newId key : UInt32) :
    (s.processAddPattern newName newId).idAt key = if key = newId then some newId else s.idAt key := by
  rw [idAt, processAddPattern, Std.ExtTreeMap.getElem?_insert]
  by_cases hkey : key = newId
  · simp [hkey]
  · simp [hkey, idAt, Ne.symm hkey]

theorem idAt_erase (s : Sequence) (id key : UInt32) :
    (⟨s.patterns.erase id, s.instanceList⟩ : Sequence).idAt key =
      if key = id then none else s.idAt key := by
  rw [idAt, Std.ExtTreeMap.getElem?_erase]
  by_cases hkey : key = id
  · simp [hkey]
  · simp [hkey, idAt, Ne.symm hkey]

/-- Changing the notes of a pattern leaves its id alone. -/
theorem idAt_insert {s : Sequence} {id : UInt32} {ptrn : Pattern} (h : s.patterns[id]? = some ptrn)
    (noteList : List Note) (key : UInt32) :
    (⟨s.patterns.insert id { ptrn with noteList := noteList }, s.instanceList⟩ : Sequence).idAt key =
      s.idAt key := by
  rw [idAt, Std.ExtTreeMap.getElem?_insert]
  by_cases hkey : key = id
  · simp [hkey, idAt, h]
  · simp [idAt, Ne.symm hkey]

theorem idAt_processAddNote (s : Sequence) (id : UInt32) (note : Note) (key : UInt32) :
    (s.processAddNote id note).idAt key = s.idAt key := by
  rw [processAddNote]
  split
  · rfl
  · next ptrn h => exact idAt_insert h _ key

theorem idAt_processDeleteNote (s : Sequence) (id : UInt32) (note : Note) (key : UInt32) :
    (s.processDeleteNote id note).idAt key = s.idAt key := by
  rw [processDeleteNote]
  split
  · rfl
  · next ptrn h => exact idAt_insert h _ key

/-- An instance is accepted if its pattern is there and nothing is found to overlap with it. -/
def accepts (s : Sequence) (pin : PatternInstance) : Bool :=
  pin.startAt.toInt < pin.stopAt.toInt ∧ pin.stopAt.toInt - pin.startAt.toInt < 2 ^ 31 ∧
    pin.patternId ∈ s.patterns ∧ ¬ s.instanceList.any (overlaps pin.startAt pin.stopAt)

/-- The sequence with an instance more. -/
def insertInstance (s : Sequence) (pin : PatternInstance) : Sequence :=
  { s with instanceList := LinkedList.insertElement PatternInstance.lt pin s.instanceList }

theorem processAddPatternInstance_of_accepts {s : Sequence} {pin : PatternInstance}
    (h : s.accepts pin = true) :
    s.processAddPatternInstance pin = some (true, s.insertInstance pin) := by
  obtain ⟨hlt, hfits, hmem, hany⟩ := of_decide_eq_true h
  rw [Std.ExtTreeMap.mem_iff_isSome_getElem?] at hmem
  obtain ⟨ptrn, hptrn⟩ := Option.isSome_iff_exists.mp hmem
  rw [processAddPatternInstance, if_neg (by omega), if_neg (by omega), hptrn]
  exact if_neg hany

theorem accepts_of_processAddPatternInstance {s s' : Sequence} {pin : PatternInstance}
    (h : s.processAddPatternInstance pin = some (true, s')) : s.accepts pin = true := by
  rw [processAddPatternInstance] at h
  split at h
  · cases h
  · next hfits =>
    split at h
    · cases h
    · next hlt =>
      split at h
      · cases h
      · next ptrn hptrn =>
        split at h
        · cases h
        · next hany =>
          have hmem : pin.patternId ∈ s.patterns := by
            rw [Std.ExtTreeMap.mem_iff_isSome_getElem?, hptrn]
            rfl
          exact decide_eq_true ⟨by omega, by omega, hmem, hany⟩

end Sequence

theorem SequenceServer.perform_insert (srv : SequenceServer) (pin : PatternInstance) :
    srv.perform (.request (.insertPatternInSequence pin)) =
      { srv with sequence :=
          if srv.sequence.accepts pin then srv.sequence.insertInstance pin else srv.sequence } := by
  dsimp only [SequenceServer.perform]
  split
  · next sequence h =>
    have haccepts := Sequence.accepts_of_processAddPatternInstance h
    rw [Sequence.processAddPatternInstance_of_accepts haccepts] at h
    obtain ⟨-, rfl⟩ := Prod.mk.inj (Option.some.inj h)
    rw [if_pos haccepts]
  · next h =>
    rw [if_neg fun haccepts ↦ h _ (Sequence.processAddPatternInstance_of_accepts haccepts)]

theorem SequenceServer.perform_delete (srv : SequenceServer) (id : UInt32) :
    srv.perform (.request (.deletePattern id)) = if id ∈ srv.sequence.patterns then
      { srv with
        sequence := { srv.sequence with patterns := srv.sequence.patterns.erase id }
        patternIdAllocator := (srv.patternIdAllocator.freeId id).getD srv.patternIdAllocator }
    else srv := by
  rw [perform, Sequence.processDelPattern]
  by_cases hmem : id ∈ srv.sequence.patterns
  · obtain ⟨ptrn, hptrn⟩ := Option.isSome_iff_exists.mp
      (Std.ExtTreeMap.mem_iff_isSome_getElem?.mp hmem)
    rw [hptrn, if_pos hmem]
  · have hnone : srv.sequence.patterns[id]? = none := Std.ExtTreeMap.getElem?_eq_none hmem
    rw [hnone, if_neg hmem]

namespace SequenceServers

/-- One of the sequences as the server has it. -/
def server (w : SequenceServers) (object : ObjectId) : SequenceServer :=
  ⟨object.1, object.2, w.sequence object, w.patternIdAllocator⟩

/-- The sequences before the first request; the allocator starts with 32 ids. -/
def new : SequenceServers where
  sequence := fun _ ↦ ⟨∅, []⟩
  patternIdAllocator := .new 32

/-- What an operation on one sequence leaves. -/
def perform (w : SequenceServers) (object : ObjectId) (op : SequenceOp) : SequenceServers where
  sequence := Function.update w.sequence object ((w.server object).perform op).sequence
  patternIdAllocator := ((w.server object).perform op).patternIdAllocator

/-- A request to one of the sequences, with what the handler returns or throws. -/
def step (w : SequenceServers) (req : ObjectId × Request) :
    Option (Except Fault (Option Message) × SequenceServers) :=
  let handled := (w.server req.1).processMessageServer req.2.acquired req.2.msg
  some (handled.1,
    ⟨Function.update w.sequence req.1 handled.2.sequence, handled.2.patternIdAllocator⟩)

/-- A request is without effect, or carries out the operation that it asks for. -/
theorem step_cases {w w' : SequenceServers} {req : ObjectId × Request}
    {r : Except Fault (Option Message)} (h : w.step req = some (r, w')) :
    (req.2.msg.sequenceOp = none ∧ w' = w) ∨
      ∃ op, req.2.msg.sequenceOp = some op ∧ w' = w.perform req.1 op := by
  obtain ⟨-, rfl⟩ := Prod.mk.inj (Option.some.inj h)
  rw [SequenceServer.processMessageServer_snd]
  cases hop : req.2.msg.sequenceOp with
  | none => exact .inl ⟨rfl, by rw [Option.elim_none, server, Function.update_eq_self]⟩
  | some op => exact .inr ⟨op, rfl, rfl⟩

/-- The id of the pattern that a sequence has under a key. -/
def idAt (w : SequenceServers) (object : ObjectId) (key : UInt32) : Option UInt32 :=
  (w.sequence object).idAt key

theorem idAt_perform (w : SequenceServers) (object : ObjectId) (op : SequenceOp) (j : ObjectId)
    (key : UInt32) : (w.perform object op).idAt j key =
      if j = object then ((w.server object).perform op).sequence.idAt key else w.idAt j key := by
  show (Function.update w.sequence object _ j).idAt key = _
  by_cases hj : j = object
  · rw [if_pos hj, hj, Function.update_self]
  · rw [if_neg hj, Function.update_of_ne hj]
    rfl

/-- What an operation does to the ids: a new one is used, one is given up, or nothing changes. -/
theorem perform_ids (w : SequenceServers) (object : ObjectId) (op : SequenceOp) :
    ((w.perform object op).patternIdAllocator = w.patternIdAllocator.getId.2 ∧
      ∀ j key, (w.perform object op).idAt j key =
        if j = object ∧ key = w.patternIdAllocator.getId.1 then some w.patternIdAllocator.getId.1
        else w.idAt j key) ∨
    (∃ id, w.idAt object id ≠ none ∧ (w.perform object op).patternIdAllocator =
        (w.patternIdAllocator.freeId id).getD w.patternIdAllocator ∧
      ∀ j key, (w.perform object op).idAt j key =
        if j = object ∧ key = id then none else w.idAt j key) ∨
    ((w.perform object op).patternIdAllocator = w.patternIdAllocator ∧
      ∀ j key, (w.perform object op).idAt j key = w.idAt j key) := by
  have hkept : ((w.server object).perform op).patternIdAllocator = w.patternIdAllocator →
      (∀ key, ((w.server object).perform op).sequence.idAt key = w.idAt object key) →
      (w.perform object op).patternIdAllocator = w.patternIdAllocator ∧
        ∀ j key, (w.perform object op).idAt j key = w.idAt j key := by
    intro hallocator hids
    refine ⟨hallocator, fun j key ↦ ?_⟩
    rw [idAt_perform]
    split
    · next hj => rw [hids, hj]
    · rfl
  cases op with
  | addPattern newName =>
    refine .inl ⟨rfl, fun j key ↦ ?_⟩
    rw [idAt_perform, ite_and]
    split
    · next hj =>
      rw [hj]
      exact Sequence.idAt_processAddPattern ..
    · rfl
  | request r =>
    cases r with
    | deletePattern id =>
      have hserver := (w.server object).perform_delete id
      by_cases hmem : id ∈ (w.server object).sequence.patterns
      · rw [if_pos hmem] at hserver
        refine .inr (.inl ⟨id, ?_, ?_, fun j key ↦ ?_⟩)
        · rw [idAt, Sequence.idAt, Ne, Option.map_eq_none_iff, ← Ne, Option.ne_none_iff_isSome]
          exact Std.ExtTreeMap.mem_iff_isSome_getElem?.mp hmem
        · rw [perform, hserver]
          rfl
        · rw [idAt_perform, hserver, ite_and]
          split
          · next hj =>
            rw [hj]
            exact Sequence.idAt_erase ..
          · rfl
      · rw [if_neg hmem] at hserver
        refine .inr (.inr (hkept ?_ fun key ↦ ?_))
        · rw [hserver]
          rfl
        · rw [hserver]
          rfl
    | insertPatternInSequence pin =>
      have hserver : (w.server object).perform (.request (.insertPatternInSequence pin)) =
          { w.server object with
            sequence := if (w.sequence object).accepts pin then (w.sequence object).insertInstance pin
              else w.sequence object } :=
        SequenceServer.perform_insert _ pin
      refine .inr (.inr (hkept (by rw [hserver]; rfl) fun key ↦ ?_))
      rw [hserver]
      show (if _ then _ else _ : Sequence).idAt key = _
      split <;> rfl
    | deletePatternFromSequence pin => exact .inr (.inr (hkept rfl fun _ ↦ rfl))
    | addNote id note =>
      exact .inr (.inr (hkept rfl fun key ↦ Sequence.idAt_processAddNote ..))
    | deleteNote id note =>
      exact .inr (.inr (hkept rfl fun key ↦ Sequence.idAt_processDeleteNote ..))

/-! ### Unique ids -/

/-- A pattern with the id is in one of the sequences. -/
def Live (w : SequenceServers) (id : UInt32) : Prop := ∃ object, w.idAt object id ≠ none

/-- An id that has been made is available or the one of a pattern, never both, and no two patterns
have the same. -/
structure Ids (w : SequenceServers) : Prop where
  own : ∀ object key id, w.idAt object key = some id → id = key
  distinct : ∀ j k id, w.idAt j id ≠ none → w.idAt k id ≠ none → j = k
  available : ∀ id ∈ w.patternIdAllocator.availableIds, id < w.patternIdAllocator.totalAmount
  live : ∀ id, w.Live id →
    id < w.patternIdAllocator.totalAmount ∧ id ∉ w.patternIdAllocator.availableIds
  made : ∀ id, id < w.patternIdAllocator.totalAmount →
    id ∈ w.patternIdAllocator.availableIds ∨ w.Live id

/-- There are fewer than 2 ^ 32 patterns: some id is not in use. -/
def Spare (w : SequenceServers) : Prop := ∃ id, ¬ w.Live id

theorem ids_new : new.Ids := by
  have hmem : ∀ id, id ∈ new.patternIdAllocator.availableIds ↔ id < 32 := by
    intro id
    rw [new, IDAllocator.new, Std.ExtTreeSet.mem_ofList, List.contains_iff_mem, List.mem_map]
    constructor
    · rintro ⟨n, hn, rfl⟩
      rw [List.mem_range] at hn
      have hlt : n < 32 := hn
      rw [UInt32.lt_iff_toNat_lt, UInt32.toNat_ofNat_of_lt' (Nat.lt_trans hlt (by decide))]
      exact hlt
    · intro hlt
      exact ⟨id.toNat, List.mem_range.mpr (UInt32.lt_iff_toNat_lt.mp hlt), UInt32.ofNat_toNat⟩
  refine ⟨nofun, nofun, fun id hid ↦ (hmem id).mp hid, ?_, fun id hid ↦ .inl ((hmem id).mpr hid)⟩
  rintro id ⟨object, hid⟩
  exact absurd rfl hid

end SequenceServers

theorem IDAllocator.getId_cases (a : IDAllocator) :
    (a.getId.1 ∈ a.availableIds ∧
      a.getId.2 = { a with availableIds := a.availableIds.erase a.getId.1 }) ∨
    (∀ id, id ∉ a.availableIds) ∧
      a.getId = (a.totalAmount, { a with totalAmount := a.totalAmount + 1 }) := by
  rw [getId]
  cases hhead : a.availableIds.toList.head? with
  | none =>
    refine .inr ⟨fun id hid ↦ ?_, rfl⟩
    rw [← Std.ExtTreeSet.mem_toList, List.head?_eq_none_iff.mp hhead] at hid
    exact absurd hid List.not_mem_nil
  | some id => exact .inl ⟨Std.ExtTreeSet.mem_toList.mp (List.mem_of_mem_head? hhead), rfl⟩

namespace SequenceServers

/-- The next id is not in use. -/
theorem Ids.not_live_getId {w : SequenceServers} (h : w.Ids) :
    ¬ w.Live w.patternIdAllocator.getId.1 := by
  intro hlive
  obtain ⟨hlt, hnot⟩ := h.live _ hlive
  rcases w.patternIdAllocator.getId_cases with ⟨hmem, -⟩ | ⟨-, hget⟩
  · exact hnot hmem
  · rw [hget] at hlt
    exact absurd hlt (UInt32.lt_irrefl _)

/-- The patterns after a new one. -/
theorem live_use {w w' : SequenceServers} {object : ObjectId} {newId : UInt32}
    (hids : ∀ j key, w'.idAt j key = if j = object ∧ key = newId then some newId else w.idAt j key)
    (id : UInt32) : w'.Live id ↔ w.Live id ∨ id = newId := by
  constructor
  · rintro ⟨j, hj⟩
    rw [hids] at hj
    split at hj
    · next heq => exact .inr heq.2
    · exact .inl ⟨j, hj⟩
  · rintro (⟨j, hj⟩ | rfl)
    · refine ⟨j, ?_⟩
      rw [hids]
      split
      · nofun
      · exact hj
    · exact ⟨object, by rw [hids, if_pos ⟨rfl, rfl⟩]; nofun⟩

/-- Where a new id is made, all that were made are in use; one that is not in use is greater. -/
theorem Ids.room {w w' : SequenceServers} (h : w.Ids) (hspare : w'.Spare) {object : ObjectId}
    (hids : ∀ j key, w'.idAt j key =
      if j = object ∧ key = w.patternIdAllocator.getId.1 then some w.patternIdAllocator.getId.1
      else w.idAt j key) (hempty : ∀ id, id ∉ w.patternIdAllocator.availableIds) :
    w.patternIdAllocator.totalAmount.toNat + 1 < 2 ^ 32 := by
  obtain ⟨id, hid⟩ := hspare
  have hnew : w.patternIdAllocator.getId.1 = w.patternIdAllocator.totalAmount := by
    rcases w.patternIdAllocator.getId_cases with ⟨hmem, -⟩ | ⟨-, hget⟩
    · exact absurd hmem (hempty _)
    · rw [hget]
  rw [live_use hids, not_or, hnew] at hid
  have hnot : ¬ id < w.patternIdAllocator.totalAmount := fun hlt ↦
    hid.1 ((h.made id hlt).resolve_left (hempty id))
  have hle : w.patternIdAllocator.totalAmount.toNat ≤ id.toNat :=
    Nat.not_lt.mp fun hlt ↦ hnot (UInt32.lt_iff_toNat_lt.mpr hlt)
  have hne : w.patternIdAllocator.totalAmount.toNat ≠ id.toNat := fun heq ↦
    hid.2 (UInt32.toNat.inj heq.symm)
  have hbound := id.toNat_lt
  omega

/-- A new pattern has an id that none has. -/
theorem Ids.use {w w' : SequenceServers} (h : w.Ids) {object : ObjectId}
    (hroom : (∀ id, id ∉ w.patternIdAllocator.availableIds) →
      w.patternIdAllocator.totalAmount.toNat + 1 < 2 ^ 32)
    (hallocator : w'.patternIdAllocator = w.patternIdAllocator.getId.2)
    (hids : ∀ j key, w'.idAt j key =
      if j = object ∧ key = w.patternIdAllocator.getId.1 then some w.patternIdAllocator.getId.1
      else w.idAt j key) : w'.Ids := by
  have hnew := h.not_live_getId
  have hcases := w.patternIdAllocator.getId_cases
  have hlive := live_use hids
  generalize w.patternIdAllocator.getId = got at hallocator hids hnew hcases hlive
  obtain ⟨newId, allocator⟩ := got
  dsimp only at hallocator hids hnew hcases hlive
  have hown : ∀ j key id, w'.idAt j key = some id → id = key := by
    intro j key id hid
    rw [hids] at hid
    split at hid
    · next heq => rw [heq.2, Option.some.inj hid]
    · exact h.own j key id hid
  have hat : ∀ j id, w'.idAt j id ≠ none → id = newId ∧ j = object ∨ id ≠ newId ∧
      w.idAt j id ≠ none := by
    intro j id hj
    rw [hids] at hj
    split at hj
    · next heq => exact .inl ⟨heq.2, heq.1⟩
    · exact .inr ⟨fun heq ↦ hnew ⟨j, heq ▸ hj⟩, hj⟩
  have hdistinct : ∀ j k id, w'.idAt j id ≠ none → w'.idAt k id ≠ none → j = k := by
    intro j k id hj hk
    rcases hat j id hj with ⟨hid, rfl⟩ | ⟨hid, hj⟩
    · rcases hat k id hk with ⟨-, rfl⟩ | ⟨hne, -⟩
      · rfl
      · exact absurd hid hne
    · rcases hat k id hk with ⟨heq, -⟩ | ⟨-, hk⟩
      · exact absurd heq hid
      · exact h.distinct j k id hj hk
  rcases hcases with ⟨hmem, rfl⟩ | ⟨hempty, hget⟩
  · refine ⟨hown, hdistinct, fun id hid ↦ ?_, fun id hid ↦ ?_, fun id hid ↦ ?_⟩
    · rw [hallocator] at hid ⊢
      exact h.available id (Std.ExtTreeSet.mem_of_mem_erase hid)
    · rw [hallocator]
      rcases (hlive id).mp hid with hid | rfl
      · obtain ⟨hlt, hnot⟩ := h.live id hid
        exact ⟨hlt, fun hmem' ↦ hnot (Std.ExtTreeSet.mem_of_mem_erase hmem')⟩
      · exact ⟨h.available id hmem, by simp⟩
    · rw [hallocator] at hid ⊢
      by_cases heq : id = newId
      · exact .inr ((hlive id).mpr (.inr heq))
      · refine (h.made id hid).imp (fun hmem' ↦ ?_) fun hid' ↦ (hlive id).mpr (.inl hid')
        rw [Std.ExtTreeSet.mem_erase]
        exact ⟨by simpa using Ne.symm heq, hmem'⟩
  · obtain ⟨rfl, rfl⟩ := Prod.mk.inj hget
    have hnext : (w.patternIdAllocator.totalAmount + 1).toNat =
        w.patternIdAllocator.totalAmount.toNat + 1 := by
      rw [UInt32.toNat_add]
      exact Nat.mod_eq_of_lt (hroom hempty)
    have hlt_iff : ∀ id, id < w.patternIdAllocator.totalAmount + 1 ↔
        id < w.patternIdAllocator.totalAmount ∨ id = w.patternIdAllocator.totalAmount := by
      intro id
      rw [UInt32.lt_iff_toNat_lt, UInt32.lt_iff_toNat_lt, hnext, ← UInt32.toNat_inj]
      omega
    refine ⟨hown, hdistinct, fun id hid ↦ ?_, fun id hid ↦ ?_, fun id hid ↦ ?_⟩
    · rw [hallocator] at hid
      exact absurd hid (hempty id)
    · rw [hallocator]
      refine ⟨(hlt_iff id).mpr ?_, hempty id⟩
      exact ((hlive id).mp hid).imp_left fun hid' ↦ (h.live id hid').1
    · rw [hallocator] at hid
      refine .inr ((hlive id).mpr (((hlt_iff id).mp hid).imp_left fun hlt ↦ ?_))
      exact (h.made id hlt).resolve_left (hempty id)

/-- The id of a pattern can be freed. -/
theorem Ids.freeId_eq {w : SequenceServers} (h : w.Ids) {id : UInt32} (hid : w.Live id) :
    w.patternIdAllocator.freeId id = some { w.patternIdAllocator with
      availableIds := w.patternIdAllocator.availableIds.insert id } :=
  if_neg (h.live id hid).2

/-- The id of a pattern that is deleted becomes available. -/
theorem Ids.giveUp {w w' : SequenceServers} (h : w.Ids) {object : ObjectId} {id₀ : UInt32}
    (hlive₀ : w.idAt object id₀ ≠ none) (hallocator : w'.patternIdAllocator =
      (w.patternIdAllocator.freeId id₀).getD w.patternIdAllocator)
    (hids : ∀ j key, w'.idAt j key = if j = object ∧ key = id₀ then none else w.idAt j key) :
    w'.Ids := by
  rw [h.freeId_eq ⟨object, hlive₀⟩, Option.getD_some] at hallocator
  have hlive : ∀ id, w'.Live id ↔ w.Live id ∧ id ≠ id₀ := by
    intro id
    constructor
    · rintro ⟨j, hj⟩
      rw [hids] at hj
      split at hj
      · exact absurd rfl hj
      · next hne =>
        refine ⟨⟨j, hj⟩, ?_⟩
        rintro rfl
        exact hne ⟨h.distinct j object id hj hlive₀, rfl⟩
    · rintro ⟨⟨j, hj⟩, hne⟩
      exact ⟨j, by rwa [hids, if_neg fun heq ↦ hne heq.2]⟩
  have hold : ∀ j key id, w'.idAt j key = some id → w.idAt j key = some id := by
    intro j key id hid
    rw [hids] at hid
    split at hid
    · cases hid
    · exact hid
  have hmem : ∀ id, id ∈ w'.patternIdAllocator.availableIds ↔
      id = id₀ ∨ id ∈ w.patternIdAllocator.availableIds := by
    intro id
    rw [hallocator, Std.ExtTreeSet.mem_insert, Std.LawfulEqCmp.compare_eq_iff_eq]
    exact or_congr_left eq_comm
  have htotal : w'.patternIdAllocator.totalAmount = w.patternIdAllocator.totalAmount := by
    rw [hallocator]
  refine ⟨fun j key id hid ↦ h.own j key id (hold j key id hid), fun j k id hj hk ↦ ?_,
    fun id hid ↦ ?_, fun id hid ↦ ?_, fun id hid ↦ ?_⟩
  · obtain ⟨a, ha⟩ := Option.ne_none_iff_exists'.mp hj
    obtain ⟨b, hb⟩ := Option.ne_none_iff_exists'.mp hk
    refine h.distinct j k id ?_ ?_
    · rw [hold j id a ha]
      nofun
    · rw [hold k id b hb]
      nofun
  · rw [htotal]
    rcases (hmem id).mp hid with rfl | hid
    · exact (h.live id ⟨object, hlive₀⟩).1
    · exact h.available id hid
  · obtain ⟨hid, hne⟩ := (hlive id).mp hid
    rw [htotal, hmem]
    exact ⟨(h.live id hid).1, fun hor ↦ hor.elim hne (h.live id hid).2⟩
  · rw [htotal] at hid
    rw [hmem, hlive]
    by_cases heq : id = id₀
    · exact .inl (.inl heq)
    · exact (h.made id hid).imp .inr fun hid' ↦ ⟨hid', heq⟩

/-- Whatever is done keeps the ids in order, as long as the counter does not wrap. -/
theorem Ids.perform {w : SequenceServers} (h : w.Ids) {object : ObjectId} {op : SequenceOp}
    (hroom : (w.perform object op).Spare ∨ w.patternIdAllocator.totalAmount.toNat + 1 < 2 ^ 32) :
    (w.perform object op).Ids := by
  rcases w.perform_ids object op with ⟨hallocator, hids⟩ | ⟨id, hid, hallocator, hids⟩ |
    ⟨hallocator, hids⟩
  · refine h.use (fun hempty ↦ ?_) hallocator hids
    rcases hroom with hspare | hroom
    · exact h.room hspare hids hempty
    · exact hroom
  · exact h.giveUp hid hallocator hids
  · have hlive : ∀ id, (w.perform object op).Live id ↔ w.Live id := fun id ↦
      exists_congr fun j ↦ by rw [hids]
    refine ⟨?_, ?_, ?_, ?_, ?_⟩
    · simpa only [hids] using h.own
    · simpa only [hids] using h.distinct
    · simpa only [hallocator] using h.available
    · simpa only [hallocator, hlive] using h.live
    · simpa only [hallocator, hlive] using h.made

/-- In every run of requests to any of the sequences with fewer than 2 ^ 32 patterns at a time: no two
patterns have the same id, no id of a pattern is available, what is available has been made, and the
id of a pattern can be freed. -/
theorem pattern_ids_unique {w : SequenceServers} {requests : List (ObjectId × Request)}
    (hrun : Run step (fun w req _ ↦ ∀ r w', w.step req = some (r, w') → w'.Spare) new requests w) :
    (∀ j k (key key' : UInt32) (ptrn ptrn' : Pattern), (w.sequence j).patterns[key]? = some ptrn →
      (w.sequence k).patterns[key']? = some ptrn' → ptrn.id = ptrn'.id → j = k ∧ key = key') ∧
    (∀ j (key : UInt32) (ptrn : Pattern), (w.sequence j).patterns[key]? = some ptrn →
      ptrn.id ∉ w.patternIdAllocator.availableIds) ∧
    (∀ id ∈ w.patternIdAllocator.availableIds, id < w.patternIdAllocator.totalAmount) ∧
    ∀ j key, ((w.sequence j).processDelPattern key).1 = true →
      (w.patternIdAllocator.freeId key).isSome := by
  have h : w.Ids := by
    refine hrun.invariant Ids ?_ ids_new
    intro w req r w' h hspare hstep
    have hspare' := hspare r w' hstep
    rcases step_cases hstep with ⟨-, rfl⟩ | ⟨op, -, rfl⟩
    · exact h
    · exact h.perform (.inl hspare')
  have hkey : ∀ j (key : UInt32) (ptrn : Pattern), (w.sequence j).patterns[key]? = some ptrn →
      ptrn.id = key ∧ w.idAt j key ≠ none := by
    intro j key ptrn hptrn
    have hid : w.idAt j key = some ptrn.id := by rw [idAt, Sequence.idAt, hptrn, Option.map_some]
    exact ⟨h.own j key _ hid, by rw [hid]; nofun⟩
  refine ⟨fun j k key key' ptrn ptrn' hp hp' heq ↦ ?_, fun j key ptrn hp ↦ ?_, h.available,
    fun j key hdel ↦ ?_⟩
  · obtain ⟨hid, hlive⟩ := hkey j key ptrn hp
    obtain ⟨hid', hlive'⟩ := hkey k key' ptrn' hp'
    obtain rfl : key = key' := hid.symm.trans (heq.trans hid')
    exact ⟨h.distinct j k key hlive hlive', rfl⟩
  · obtain ⟨hid, hlive⟩ := hkey j key ptrn hp
    rw [hid]
    exact (h.live key ⟨j, hlive⟩).2
  · have hlive : w.Live key := by
      refine ⟨j, fun hnone ↦ ?_⟩
      rw [Sequence.processDelPattern, Option.map_eq_none_iff.mp hnone] at hdel
      cases hdel
    rw [h.freeId_eq hlive]
    rfl

/-- The next id that would be made is not in use. -/
theorem Ids.spare {w : SequenceServers} (h : w.Ids) : w.Spare :=
  ⟨w.patternIdAllocator.totalAmount, fun hlive ↦ UInt32.lt_irrefl _ (h.live _ hlive).1⟩

/-- A run with a counter that stays small is one with fewer than 2 ^ 32 patterns at a time. -/
theorem run_spare {w w' : SequenceServers} (h : w.Ids) {requests : List (ObjectId × Request)}
    (hrun : Run step (fun w _ _ ↦ decide (w.patternIdAllocator.totalAmount < 1000) = true) w
      requests w') :
    Run step (fun w req _ ↦ ∀ r w', w.step req = some (r, w') → w'.Spare) w requests w' := by
  induction hrun with
  | nil w => exact .nil w
  | @cons w v _ _ _ _ hstep hsmall _ ih =>
    have hids : v.Ids := by
      rcases step_cases hstep with ⟨-, rfl⟩ | ⟨op, -, rfl⟩
      · exact h
      · refine h.perform (.inr ?_)
        have hlt := UInt32.lt_iff_toNat_lt.mp (of_decide_eq_true hsmall)
        exact Nat.lt_of_le_of_lt hlt (by decide)
    refine .cons hstep (fun r w' hstep' ↦ ?_) (ih hids)
    obtain ⟨-, rfl⟩ := Prod.mk.inj (Option.some.inj (hstep.symm.trans hstep'))
    exact hids.spare

/-- The request to delete the first pattern. -/
def deleteFirst : Request :=
  Replica.request [(str "commandid", str "req_del_ptrn"), (str "pattern_id", str "0")]

/-- Two sequences have patterns; the id of one that is deleted is used by the other sequence. -/
theorem pattern_ids_unique_reused : ∃ w, Run step (fun w req _ ↦ ∀ r w',
      w.step req = some (r, w') → w'.Spare) new
      [(⟨3, by decide⟩, Replica.addBass), (⟨4, by decide⟩, Replica.addBass),
        (⟨3, by decide⟩, deleteFirst), (⟨4, by decide⟩, Replica.addBass)] w ∧
    (w.idAt ⟨3, by decide⟩ 0, w.idAt ⟨4, by decide⟩ 0, w.idAt ⟨4, by decide⟩ 1) =
      (none, some 0, some 1) ∧
    ∀ id ∈ w.patternIdAllocator.availableIds, id < w.patternIdAllocator.totalAmount := by
  have hsome : (runAll step (fun w _ _ ↦ decide (w.patternIdAllocator.totalAmount < 1000)) new
      [(⟨3, by decide⟩, Replica.addBass), (⟨4, by decide⟩, Replica.addBass),
        (⟨3, by decide⟩, deleteFirst), (⟨4, by decide⟩, Replica.addBass)]).map (fun w ↦
      (w.idAt ⟨3, by decide⟩ 0, w.idAt ⟨4, by decide⟩ 0, w.idAt ⟨4, by decide⟩ 1)) =
      some (none, some 0, some 1) := by
    decide +kernel
  obtain ⟨w, hw, hids⟩ := Option.map_eq_some_iff.mp hsome
  have hrun := run_spare ids_new (Run.of_runAll hw)
  exact ⟨w, hrun, hids, (pattern_ids_unique hrun).2.2.1⟩

end SequenceServers

end Vuknob
