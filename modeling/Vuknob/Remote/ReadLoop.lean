import Mathlib.Data.List.Basic
import Vuknob.Remote.Framing

/-!
# The read loop of a connection

`MessageHandler::do_read_header` and `do_read_body`, `src_jni/remote_interface.cc:272–317`, with the
calls that they make of the virtual functions. One read is outstanding at a time; it ends with the
bytes it has asked for, or with an error, which may happen at any time.
-/

namespace Vuknob

/-- How a call ends: it returns, or throws something derived from `std::exception`, or something
else, which no handler here catches. -/
inductive Ending
  | returns
  | throws
  | escapes
  deriving DecidableEq

/-- The virtual functions of a `MessageHandler`; what they do may depend on anything. -/
structure MessageHandler (σ : Type) where
  onMessageReceived : σ → Message → Ending × σ
  onConnectionDropped : σ → Ending × σ

/-- Which read is outstanding. -/
inductive Reading
  | header
  | body
  | stopped
  deriving DecidableEq

/-- A connection: `read_msg`, the bytes from the other side that have not been read, and what the
virtual functions see. -/
structure ReadState (σ : Type) where
  reading : Reading
  readMsg : Message
  stream : StdString
  state : σ

/-- A call of a virtual function. -/
inductive HandlerCall
  | received (msg : Message)
  | dropped

namespace MessageHandler

variable {σ : Type} (H : MessageHandler σ)

/-- `on_connection_dropped` is called. If it throws, the exception leaves the completion handler and
nothing is read any more. -/
def drop (c : ReadState σ) (next : Reading) : List HandlerCall × ReadState σ :=
  let (ending, state) := H.onConnectionDropped c.state
  ([.dropped], { c with state, reading := if ending = .returns then next else .stopped })

/-- The completion handler of `do_read_header`, `src_jni/remote_interface.cc:277–285`. -/
def headerRead (c : ReadState σ) (fails : Bool) : List HandlerCall × ReadState σ :=
  if fails then H.drop c .stopped
  else
    match doReadHeader c.readMsg c.stream with
    | .error _ => ([], c)
    | .ok (readMsg, stream) => ([], { c with reading := .body, readMsg, stream })

/-- The completion handler of `do_read_body`, `src_jni/remote_interface.cc:294–315`. -/
def bodyRead (c : ReadState σ) (fails : Bool) : List HandlerCall × ReadState σ :=
  if fails then H.drop c .stopped
  else
    match doReadBody c.readMsg c.stream with
    | .error .waiting => ([], c)
    | .error .undefined => ([], { c with reading := .stopped })
    | .ok (readMsg, stream) =>
      match H.onMessageReceived c.state readMsg with
      | (.returns, state) => ([.received readMsg], ⟨.header, readMsg, stream, state⟩)
      | (.throws, state) =>
        -- the handlers of the exceptions, and then `do_read_header` all the same
        let (calls, c) := H.drop ⟨.body, readMsg, stream, state⟩ .header
        (.received readMsg :: calls, c)
      | (.escapes, state) => ([.received readMsg], ⟨.stopped, readMsg, stream, state⟩)

/-- The outstanding read ends, with an error or without one. -/
def step (c : ReadState σ) (fails : Bool) : List HandlerCall × ReadState σ :=
  match c.reading with
  | .header => H.headerRead c fails
  | .body => H.bodyRead c fails
  | .stopped => ([], c)

/-- The calls made while one read after the other ends. -/
def calls (c : ReadState σ) : List Bool → List HandlerCall
  | [] => []
  | fails :: reads => (H.step c fails).1 ++ calls (H.step c fails).2 reads

/-- The connection after these reads. -/
def after (c : ReadState σ) : List Bool → ReadState σ
  | [] => c
  | fails :: reads => after (H.step c fails).2 reads

/-- Nothing is called after `on_connection_dropped`. -/
def Final (calls : List HandlerCall) : Prop :=
  ∀ front back, calls = front ++ .dropped :: back → back = []

/-- A message arrives whose handler throws, and `on_connection_dropped` returns. -/
def Resumes (c : ReadState σ) (fails : Bool) : Prop :=
  c.reading = .body ∧ fails = false ∧ ∃ readMsg stream,
    doReadBody c.readMsg c.stream = .ok (readMsg, stream) ∧
      (H.onMessageReceived c.state readMsg).1 = .throws ∧
      (H.onConnectionDropped (H.onMessageReceived c.state readMsg).2).1 = .returns

/-- That never happens. -/
def Careful (c : ReadState σ) : List Bool → Prop
  | [] => True
  | fails :: reads => ¬ H.Resumes c fails ∧ Careful (H.step c fails).2 reads

variable {H} {c : ReadState σ} {fails : Bool}

/-- Nothing is outstanding, and nothing is called. -/
theorem calls_stopped (h : c.reading = .stopped) (reads : List Bool) :
    H.calls c reads = [] ∧ H.after c reads = c := by
  induction reads with
  | nil => exact ⟨rfl, rfl⟩
  | cons fails reads ih =>
    rw [calls, after, step, h]
    exact ⟨ih.1, ih.2⟩

/-- What one read can do: nothing is dropped, or the drop comes last and the loop has stopped, or it
resumes. -/
theorem step_cases (H : MessageHandler σ) (c : ReadState σ) (fails : Bool) :
    .dropped ∉ (H.step c fails).1 ∨
      (∃ front, (H.step c fails).1 = front ++ [.dropped] ∧ .dropped ∉ front) ∧
        ((H.step c fails).2.reading = .stopped ∨
          H.Resumes c fails ∧ (H.step c fails).2.reading = .header) := by
  have hstopped : ∀ c : ReadState σ, (H.drop c .stopped).2.reading = .stopped :=
    fun c ↦ ite_self _
  rw [step]
  split
  · rw [headerRead]
    split
    · exact .inr ⟨⟨[], rfl, nofun⟩, .inl (hstopped c)⟩
    · split <;> exact .inl nofun
  · next hbody =>
    rw [bodyRead]
    split
    · exact .inr ⟨⟨[], rfl, nofun⟩, .inl (hstopped c)⟩
    · next hfails =>
      split
      · exact .inl nofun
      · exact .inl nofun
      · next readMsg stream hread =>
        split
        · exact .inl (by simp)
        · next state hthrows =>
          refine .inr ⟨⟨[.received readMsg], rfl, by simp⟩, ?_⟩
          by_cases hdrop : (H.onConnectionDropped state).1 = .returns
          · refine .inr ⟨⟨hbody, by simpa using hfails, readMsg, stream, hread, ?_, ?_⟩,
              if_pos hdrop⟩
            · rw [hthrows]
            · rw [hthrows]
              exact hdrop
          · exact .inl (if_neg hdrop)
        · exact .inl (by simp)
  · exact .inl nofun

theorem final_append {front back : List HandlerCall} (hfront : .dropped ∉ front)
    (hback : Final back) : Final (front ++ back) := by
  intro l r hsplit
  rcases List.append_eq_append_iff.mp hsplit with ⟨m, hl, hm⟩ | ⟨m, hf, hr⟩
  · exact hback m r hm
  · cases m with
    | nil => exact hback [] r hr.symm
    | cons call m =>
      rw [List.cons_append, List.cons.injEq] at hr
      rw [hf, ← hr.1] at hfront
      exact absurd (List.mem_append_right _ List.mem_cons_self) hfront

/-- As long as the loop does not resume, a drop is the last thing that happens. -/
theorem Careful.final {reads : List Bool} (h : H.Careful c reads) : Final (H.calls c reads) := by
  induction reads generalizing c with
  | nil => exact fun front back hsplit ↦ by simp [calls] at hsplit
  | cons fails reads ih =>
    rw [calls]
    rcases H.step_cases c fails with hnone | ⟨⟨front, hfront, hnone⟩, hstopped | ⟨hresumes, -⟩⟩
    · exact final_append hnone (ih h.2)
    · rw [(calls_stopped hstopped reads).1, List.append_nil, hfront]
      refine final_append hnone fun l r hsplit ↦ ?_
      cases l with
      | nil => exact (List.cons.inj hsplit).2.symm
      | cons call l => simp at hsplit
    · exact absurd hresumes h.1

/-- Where the loop resumes, one more failing read drops the connection again. -/
theorem not_final_of_resumes (h : H.Resumes c fails) : ¬ Final (H.calls c [fails, true]) := by
  obtain ⟨hbody, rfl, readMsg, stream, hread, hthrows, hreturns⟩ := h
  have hstep : H.step c false = ([.received readMsg, .dropped], ⟨.header, readMsg, stream,
      (H.onConnectionDropped (H.onMessageReceived c.state readMsg).2).2⟩) := by
    rw [step, hbody]
    simp only [bodyRead, hread, Bool.false_eq_true, if_false]
    rw [show H.onMessageReceived c.state readMsg =
      (.throws, (H.onMessageReceived c.state readMsg).2) from Prod.ext hthrows rfl]
    simp only [drop, hreturns, if_true]
  intro hfinal
  have hcalls : H.calls c [false, true] = [.received readMsg] ++ .dropped :: [.dropped] := by
    rw [calls, hstep]
    rfl
  exact absurd (hfinal _ _ hcalls) (List.cons_ne_nil _ _)

theorem calls_append (reads reads' : List Bool) :
    H.calls c (reads ++ reads') = H.calls c reads ++ H.calls (H.after c reads) reads' := by
  induction reads generalizing c with
  | nil => rfl
  | cons fails reads ih => rw [List.cons_append, calls, calls, after, ih, List.append_assoc]

theorem Final.of_append {front back : List HandlerCall} (h : Final (front ++ back)) :
    Final back := by
  rintro l r rfl
  exact h (front ++ l) r (List.append_assoc ..).symm

/-- Nothing is ever called after a drop exactly if the loop never resumes. -/
theorem final_iff (H : MessageHandler σ) (c : ReadState σ) :
    (∀ reads, Final (H.calls c reads)) ↔ ∀ reads, H.Careful c reads := by
  refine ⟨fun h reads ↦ ?_, fun h reads ↦ (h reads).final⟩
  induction reads generalizing c with
  | nil => trivial
  | cons fails reads ih =>
    refine ⟨fun hresumes ↦ not_final_of_resumes hresumes (h _), ih _ fun reads' ↦ ?_⟩
    exact Final.of_append (h (fails :: reads'))

end MessageHandler

/-! ## Clients of the server -/

/-- `Server::client_agents`, by the ids, and everything else that an agent sees. -/
structure AgentState (σ : Type) where
  clientAgents : Std.ExtTreeSet Int32
  server : σ

/-- `ClientAgent`, `src_jni/engine_code/server.cc:53–72`; `route` is `route_incomming_message` with
the answer to a `FailureResponse`, and `drop_client` is at
`src_jni/engine_code/server.cc:351–356`. -/
def clientAgent {σ : Type} (id : Int32) (route : σ → Message → Ending × σ) :
    MessageHandler (AgentState σ) where
  onMessageReceived s msg := ((route s.server msg).1, { s with server := (route s.server msg).2 })
  onConnectionDropped s := (.returns, { s with clientAgents := s.clientAgents.erase id })

open MessageHandler

section Agents

variable {σ : Type} {id : Int32} {route : σ → Message → Ending × σ} {c : ReadState (AgentState σ)}

/-- Only a drop changes the agents. -/
theorem clientAgents_step {fails : Bool} (h : .dropped ∉ ((clientAgent id route).step c fails).1) :
    ((clientAgent id route).step c fails).2.state.clientAgents = c.state.clientAgents := by
  cases hreading : c.reading with
  | header =>
    cases fails with
    | true => simp [step, hreading, headerRead, drop] at h
    | false =>
      simp only [step, hreading, headerRead, Bool.false_eq_true, if_false]
      split <;> rfl
  | body =>
    cases fails with
    | true => simp [step, hreading, bodyRead, drop] at h
    | false =>
      simp only [step, hreading, bodyRead, Bool.false_eq_true, if_false] at h ⊢
      cases hread : doReadBody c.readMsg c.stream with
      | error stop => cases stop <;> rfl
      | ok result =>
        simp only [hread, clientAgent] at h ⊢
        cases hending : (route c.state.server result.1).1 with
        | throws => simp [hending, drop] at h
        | _ => rfl
  | stopped => rw [step, hreading]

theorem clientAgents_after {reads : List Bool}
    (h : .dropped ∉ (clientAgent id route).calls c reads) :
    ((clientAgent id route).after c reads).state.clientAgents = c.state.clientAgents := by
  induction reads generalizing c with
  | nil => rfl
  | cons fails reads ih =>
    rw [calls, List.mem_append, not_or] at h
    exact (ih h.2).trans (clientAgents_step h.1)

/-- An agent that has been removed is not called any more. -/
theorem Careful.removed_idle {reads more : List Bool} (hid : id ∈ c.state.clientAgents)
    (h : (clientAgent id route).Careful c (reads ++ more))
    (hremoved : id ∉ ((clientAgent id route).after c reads).state.clientAgents) :
    (clientAgent id route).calls ((clientAgent id route).after c reads) more = [] := by
  have hdropped : .dropped ∈ (clientAgent id route).calls c reads := by
    refine Classical.byContradiction fun hnone ↦ hremoved ?_
    rw [clientAgents_after hnone]
    exact hid
  obtain ⟨front, back, hsplit⟩ := List.append_of_mem hdropped
  have hcalls : (clientAgent id route).calls c (reads ++ more) = front ++ .dropped ::
      (back ++ (clientAgent id route).calls ((clientAgent id route).after c reads) more) := by
    rw [calls_append, hsplit, List.append_assoc]
    rfl
  have hback := h.final front _ hcalls
  exact (List.append_eq_nil_iff.mp hback).2

end Agents

/-- `route_incomming_message`, `src_jni/engine_code/server.cc:382–400`, on a server without objects:
`get_value`, `stol` or the search for the object throws. -/
def routeNowhere (s : Unit) (_ : Message) : Ending × Unit := (.throws, s)

/-- A message without a body removes the agent, and the loop goes on to the next header. -/
theorem step_emptyMessage {readMsg : Message} (hsbuf : readMsg.sbuf = []) (rest : StdString)
    (state : AgentState Unit) :
    ∃ msg, msg.sbuf = [] ∧ ∀ reads,
      (clientAgent 0 routeNowhere).calls ⟨.header, readMsg, snprintf08x 0 ++ rest, state⟩
          (false :: false :: reads) =
        .received msg :: .dropped :: (clientAgent 0 routeNowhere).calls
          ⟨.header, msg, rest, ⟨state.clientAgents.erase 0, ()⟩⟩ reads ∧
      (clientAgent 0 routeNowhere).after ⟨.header, readMsg, snprintf08x 0 ++ rest, state⟩
          (false :: false :: reads) =
        (clientAgent 0 routeNowhere).after
          ⟨.header, msg, rest, ⟨state.clientAgents.erase 0, ()⟩⟩ reads := by
  let header : Message := { readMsg.receive (snprintf08x 0) with sbuf := [], bodyLength := 0 }
  let msg : Message := { header.receive [] with sbuf := [], key2val := ∅ }
  have hheader : doReadHeader readMsg (snprintf08x 0 ++ rest) = .ok (header, rest) :=
    doReadHeader_snprintf08x hsbuf 0 rest
  have hbody : doReadBody header rest = .ok (msg, rest) := by
    have hentries : Message.decodeEntries (Message.getline 61 []) ∅ = some (∅, []) := by
      rw [Message.decodeEntries]
      rfl
    have hlength : header.bodyLength.toNat = 0 := rfl
    have hempty : (header.receive []).sbuf = [] := rfl
    have hkeys : (header.receive []).key2val = ∅ := rfl
    rw [doReadBody, hlength]
    simp only [Nat.not_lt_zero, if_false, List.take_zero, List.drop_zero, Message.decodeBody,
      hempty, hkeys, hentries, Option.map_some]
    rfl
  refine ⟨msg, rfl, fun reads ↦ ⟨?_, ?_⟩⟩
  · simp only [calls, step, headerRead, bodyRead, Bool.false_eq_true, if_false, hheader, hbody]
    rfl
  · simp only [after, step, headerRead, bodyRead, Bool.false_eq_true, if_false, hheader, hbody]
    rfl

end Vuknob
