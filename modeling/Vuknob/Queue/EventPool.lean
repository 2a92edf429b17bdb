import Vuknob.Queue.AsyncOperations
import Vuknob.Queue.Returns

/-!
# Every operation is carried out once

Whatever order the two threads take their steps in, no event is in two places, and operations are
carried out in the order in which they were requested.
-/

namespace Vuknob

open Library

variable {Op : Type}

/-- What the call of `enqueue` or `try_enqueue` is for, while the thread is in one. -/
def EventWorker.Produces (created : Nat) (p : Producer Nat) : EventWorker → Prop
  | .offering ev => ev = created ∧ p.Serves ev false
  | .recycling ev => p.Serves ev true
  | _ => p = .idle

theorem EventWorker.event_of_uncalled (w : EventWorker) {ev : Nat} (h : ev ∈ w.uncalled) :
    ev ∈ w.event := by
  cases w with
  | taken e => exact h
  | _ => cases h

/-- `try_dequeue` is called where it should be. -/
def Requester.Consumes (c : Consumer Nat) : Requester Op → Prop
  | .dequeuing _ => c ≠ .idle
  | _ => c = .idle

/-- A call is under way. -/
theorem Producer.Serves.not_idle {e : Nat} {a : Bool} {p : Producer Nat} (h : p.Serves e a) :
    p ≠ .idle := by
  rintro rfl
  exact h

namespace AsyncOperations

/-- Every event that has been made is in one place, and the operations that have been requested are
those that have been carried out and those that wait for it. -/
structure Orderly (s : AsyncOperations Op) : Prop where
  queue : s.freeEvents.Sound 101
  produces : s.worker.Produces s.created s.freeEvents.producer
  consumes : s.requester.Consumes s.freeEvents.consumer
  perm : s.places.Perm (List.range s.created)
  requested : s.requested.map some = s.executed.map some ++ s.outstanding

variable {s : AsyncOperations Op}

theorem orderly_start {bytes : Nat} (hbytes : 0 < bytes) : (start Op bytes).Orderly := by
  have hpow : 2 ^ 7 ≤ 2 ^ (8 * bytes - 1) := Nat.pow_le_pow_right Nat.two_pos (by omega)
  have hnat : (100 : BitVec (8 * bytes)).toNat = 100 := by
    rw [BitVec.ofNat_eq_ofNat, BitVec.toNat_ofNat]
    refine Nat.mod_eq_of_lt (lt_of_lt_of_le (by decide) (hpow.trans ?_))
    exact Nat.pow_le_pow_right Nat.two_pos (Nat.sub_le _ _)
  have hqueue : (ReaderWriterQueue.new (100 : BitVec (8 * bytes)) : ReaderWriterQueue Nat).Sound
      ((100 : BitVec (8 * bytes)).toNat + 1) := by
    refine ReaderWriterQueue.sound_new ?_ ?_
    · rw [hnat]
      decide
    · rw [hnat]
      exact lt_of_lt_of_le (by decide) hpow
  rw [hnat] at hqueue
  exact ⟨hqueue, rfl, rfl, List.Perm.refl _, rfl⟩

/-- A step of the pool is always defined while one of the two is in a call. -/
private theorem exists_produce {q : ReaderWriterQueue Nat} (h : q.Sound 101)
    (hbusy : q.producer ≠ .idle) : ∃ r q', q.produce = some (r, q') ∧ q'.Sound 101 := by
  obtain ⟨_, _, _, hc⟩ := h
  obtain ⟨r, q, _, _, _, hstep, hc'⟩ := hc.produce (by decide) hbusy
  exact ⟨r, q, hstep, _, _, _, hc'⟩

private theorem exists_consume {q : ReaderWriterQueue Nat} (h : q.Sound 101)
    (hbusy : q.consumer ≠ .idle) : ∃ r q', q.consume = some (r, q') ∧ q'.Sound 101 := by
  obtain ⟨_, _, _, hc⟩ := h
  obtain ⟨r, q, _, _, _, hstep, hc'⟩ := hc.consume hbusy
  exact ⟨r, q, hstep, _, _, _, hc'⟩

/-- What comes out of the pool is what has been there longest. -/
private theorem free_of_received {q q' : ReaderWriterQueue Nat} {ev : Nat} (hsound : q'.Sound 101)
    (hsent : q'.sent = q.sent) (hreceived : q'.received = q.received ++ [ev]) :
    q.sent.drop q.received.length = ev :: q'.sent.drop q'.received.length := by
  obtain ⟨rest, hrest⟩ := hsound.received_prefix
  rw [← hsent, ← hrest, List.drop_left, hreceived, List.append_assoc, List.drop_left]
  rfl

/-- What goes into the pool is behind the others. -/
private theorem free_of_sent {q q' : ReaderWriterQueue Nat} {ev : Nat} (hsound : q.Sound 101)
    (hsent : q'.sent = q.sent ++ [ev]) (hreceived : q'.received = q.received) :
    q'.sent.drop q'.received.length = q.sent.drop q.received.length ++ [ev] := by
  rw [hsent, hreceived, List.drop_append_of_le_length hsound.received_prefix.length_le]

/-- The next step of a call of `queue_event`. -/
theorem Orderly.request (h : s.Orderly) (hbusy : s.requester ≠ .idle) :
    ∃ s', s.request = some ((), s') ∧ s'.Orderly := by
  obtain ⟨hqueue, hproduces, hconsumes, hperm, hrequested⟩ := h
  cases hr : s.requester with
  | idle => exact absurd hr hbusy
  | entered op =>
    rw [hr] at hconsumes
    have hidle : s.freeEvents.consumer = .idle := hconsumes
    have hstep : s.freeEvents.step .dequeue =
        some (.internal, { s.freeEvents with consumer := .entered }) := by
      rw [ReaderWriterQueue.step, hidle]
    refine ⟨{ s with
      freeEvents := { s.freeEvents with consumer := .entered }
      requester := .dequeuing op }, ?_, hqueue.step (by decide) hstep, hproduces, ?_, ?_, ?_⟩
    · simp only [AsyncOperations.request, hr, hstep]
      rfl
    · exact fun he ↦ by cases he
    · rw [places, hr] at hperm
      exact hperm
    · simp only [outstanding, calling, hr] at hrequested ⊢
      exact hrequested
  | dequeuing op =>
    rw [hr] at hconsumes
    obtain ⟨r, q, hstep, hsound⟩ := exists_consume hqueue hconsumes
    obtain ⟨hreturns, hsent, hproducer⟩ := ReaderWriterQueue.consume_returns hstep
    rw [← hproducer] at hproduces
    rw [places, hr] at hperm
    simp only [AsyncOperations.request, hr, ReaderWriterQueue.step, hstep]
    simp only [outstanding, calling, hr] at hrequested
    cases r with
    | internal =>
      obtain ⟨hreceived, hne⟩ := hreturns
      refine ⟨_, rfl, hsound, hproduces, hne, ?_, hrequested⟩
      rw [places, free, hsent, hreceived]
      exact hperm
    | dequeued ev =>
      obtain ⟨hreceived, hidle⟩ := hreturns
      refine ⟨_, rfl, hsound, hproduces, hidle, ?_, hrequested⟩
      rw [free, free_of_received hsound hsent hreceived] at hperm
      exact List.perm_middle.trans hperm
    | empty =>
      obtain ⟨hreceived, hidle⟩ := hreturns
      refine ⟨_, rfl, hsound, hproduces, hidle, ?_, hrequested⟩
      rw [places, free, hsent, hreceived]
      exact hperm
    | enqueued => exact hreturns.elim
    | refused => exact hreturns.elim
  | dequeued op ev =>
    rw [hr] at hconsumes
    have hperm' := hperm
    rw [places, hr] at hperm'
    simp only [AsyncOperations.request, hr]
    refine ⟨_, rfl, hqueue, hproduces, hconsumes, hperm', ?_⟩
    -- No event that waits to be taken is this one.
    have hnodup := hperm'.nodup_iff.mpr List.nodup_range
    have hev : ev ∉ s.worker.uncalled ++ s.eq := by
      have hnotMem : ev ∉ s.eq ++ s.worker.event :=
        (List.nodup_cons.mp (List.nodup_append.mp hnodup).2.1).1
      intro hmem
      refine hnotMem (List.mem_append.mpr ((List.mem_append.mp hmem).symm.imp_right ?_))
      exact fun hmem ↦ s.worker.event_of_uncalled hmem
    have hkeep : (s.worker.uncalled ++ s.eq).map (Function.update s.operation ev (some op)) =
        (s.worker.uncalled ++ s.eq).map s.operation :=
      List.map_congr_left fun e he ↦ Function.update_of_ne (by rintro rfl; exact hev he) ..
    simp only [outstanding, calling, hr] at hrequested ⊢
    rw [hkeep, Function.update_self]
    exact hrequested
  | filled ev =>
    rw [hr] at hconsumes
    rw [places, hr] at hperm
    simp only [AsyncOperations.request, hr]
    refine ⟨_, rfl, hqueue, hproduces, hconsumes, ?_, ?_⟩
    · refine List.Perm.trans (List.Perm.append_left _ ?_) hperm
      show (s.eq ++ [ev] ++ s.worker.event).Perm (ev :: (s.eq ++ s.worker.event))
      rw [List.append_assoc]
      exact List.perm_middle
    · simp only [outstanding, calling, hr] at hrequested ⊢
      rw [hrequested]
      simp

/-- The next step of the thread, unless it waits for an event. -/
theorem Orderly.work (h : s.Orderly) (hbusy : s.worker = .waiting → s.eq ≠ []) :
    ∃ s', s.work = some ((), s') ∧ s'.Orderly := by
  obtain ⟨hqueue, hproduces, hconsumes, hperm, hrequested⟩ := h
  cases hw : s.worker with
  | creating =>
    rw [hw] at hproduces
    have hidle : s.freeEvents.producer = .idle := hproduces
    have hstep : s.freeEvents.step (.enqueue s.created false) =
        some (.internal, { s.freeEvents with producer := .entered s.created false }) := by
      rw [ReaderWriterQueue.step, hidle]
    refine ⟨{ s with
      freeEvents := { s.freeEvents with producer := .entered s.created false }
      worker := .offering s.created }, ?_, hqueue.step (by decide) hstep, ⟨rfl, rfl, rfl⟩,
      hconsumes, ?_, ?_⟩
    · simp only [AsyncOperations.work, hw, hstep]
      rfl
    · rw [places, hw] at hperm
      exact hperm
    · simp only [outstanding, hw] at hrequested ⊢
      exact hrequested
  | offering ev =>
    rw [hw] at hproduces
    obtain ⟨rfl, hserves⟩ := hproduces
    obtain ⟨r, q, hstep, hsound⟩ := exists_produce hqueue hserves.not_idle
    obtain ⟨hreturns, hreceived, hconsumer⟩ := ReaderWriterQueue.produce_returns hserves hstep
    rw [← hconsumer] at hconsumes
    rw [places, hw] at hperm
    simp only [AsyncOperations.work, hw, ReaderWriterQueue.step, hstep]
    simp only [outstanding, hw] at hrequested
    cases r with
    | internal =>
      obtain ⟨hsent, hserves'⟩ := hreturns
      refine ⟨_, rfl, hsound, ⟨rfl, hserves'⟩, hconsumes, ?_, hrequested⟩
      rw [places, free, hsent, hreceived]
      exact hperm
    | enqueued =>
      obtain ⟨hsent, hidle⟩ := hreturns
      refine ⟨_, rfl, hsound, hidle, hconsumes, ?_, hrequested⟩
      rw [places, free, free_of_sent hqueue hsent hreceived, List.range_succ]
      refine List.Perm.trans ?_ (hperm.append_right _)
      rw [List.append_assoc, List.append_assoc]
      exact List.Perm.append_left _ List.perm_append_comm
    | refused =>
      obtain ⟨-, hsent, hidle⟩ := hreturns
      refine ⟨_, rfl, hsound, hidle, hconsumes, ?_, hrequested⟩
      rw [places, free, hsent, hreceived]
      exact hperm
    | dequeued x => exact hreturns.elim
    | empty => exact hreturns.elim
  | waiting =>
    rw [hw] at hproduces
    obtain ⟨ev, eq, heq⟩ := List.exists_cons_of_ne_nil (hbusy hw)
    rw [places, hw, heq] at hperm
    simp only [AsyncOperations.work, hw, heq]
    refine ⟨_, rfl, hqueue, hproduces, hconsumes, ?_, ?_⟩
    · refine List.Perm.trans (List.Perm.append_left _ (List.Perm.append_left _ ?_)) hperm
      show (eq ++ [ev]).Perm (ev :: eq ++ [])
      rw [List.append_nil]
      exact List.perm_append_singleton ev eq
    · simp only [outstanding, hw, heq] at hrequested ⊢
      exact hrequested
  | taken ev =>
    rw [hw] at hproduces
    rw [places, hw] at hperm
    simp only [outstanding, hw] at hrequested
    obtain ⟨op, hop⟩ : ∃ op, s.operation ev = some op := by
      have hmem : s.operation ev ∈ s.requested.map some := by
        rw [hrequested]
        exact List.mem_append_right _ (List.mem_append_left _ List.mem_cons_self)
      obtain ⟨op, -, hop⟩ := List.mem_map.mp hmem
      exact ⟨op, hop.symm⟩
    simp only [AsyncOperations.work, hw, hop]
    refine ⟨_, rfl, hqueue, hproduces, hconsumes, hperm, ?_⟩
    rw [hrequested]
    simp [outstanding, EventWorker.uncalled, hop]
    rfl
  | finished ev =>
    rw [hw] at hproduces
    have hidle : s.freeEvents.producer = .idle := hproduces
    have hstep : s.freeEvents.step (.enqueue ev true) =
        some (.internal, { s.freeEvents with producer := .entered ev true }) := by
      rw [ReaderWriterQueue.step, hidle]
    refine ⟨{ s with
      freeEvents := { s.freeEvents with producer := .entered ev true }
      worker := .recycling ev }, ?_, hqueue.step (by decide) hstep, ⟨rfl, rfl⟩, hconsumes, ?_, ?_⟩
    · simp only [AsyncOperations.work, hw, hstep]
      rfl
    · rw [places, hw] at hperm
      exact hperm
    · simp only [outstanding, hw] at hrequested ⊢
      exact hrequested
  | recycling ev =>
    rw [hw] at hproduces
    obtain ⟨r, q, hstep, hsound⟩ := exists_produce hqueue hproduces.not_idle
    obtain ⟨hreturns, hreceived, hconsumer⟩ := ReaderWriterQueue.produce_returns hproduces hstep
    rw [← hconsumer] at hconsumes
    rw [places, hw] at hperm
    simp only [AsyncOperations.work, hw, ReaderWriterQueue.step, hstep]
    simp only [outstanding, hw] at hrequested
    cases r with
    | internal =>
      obtain ⟨hsent, hserves'⟩ := hreturns
      refine ⟨_, rfl, hsound, hserves', hconsumes, ?_, hrequested⟩
      rw [places, free, hsent, hreceived]
      exact hperm
    | enqueued =>
      obtain ⟨hsent, hidle⟩ := hreturns
      refine ⟨_, rfl, hsound, hidle, hconsumes, ?_, hrequested⟩
      rw [places, free, free_of_sent hqueue hsent hreceived]
      refine List.Perm.trans ?_ hperm
      rw [List.append_assoc]
      refine List.Perm.append_left _ (List.perm_append_comm.trans ?_)
      show (s.requester.event ++ (s.eq ++ []) ++ [ev]).Perm (s.requester.event ++ (s.eq ++ [ev]))
      rw [List.append_nil, List.append_assoc]
    | refused => exact absurd hreturns.1 (by decide)
    | dequeued x => exact hreturns.elim
    | empty => exact hreturns.elim

/-- Every step of either thread. -/
theorem Orderly.step (h : s.Orderly) {command : AsyncCommand Op} {r : Unit}
    {s' : AsyncOperations Op} (hstep : s.step command = some (r, s')) : s'.Orderly := by
  cases command with
  | queueEvent op =>
    rw [AsyncOperations.step] at hstep
    split at hstep
    · next hr _ =>
      obtain ⟨-, rfl⟩ := Prod.mk.inj (Option.some.inj hstep)
      obtain ⟨hqueue, hproduces, hconsumes, hperm, hrequested⟩ := h
      rw [hr] at hconsumes
      rw [places, hr] at hperm
      refine ⟨hqueue, hproduces, hconsumes, hperm, ?_⟩
      simp only [outstanding, calling, hr] at hrequested ⊢
      rw [List.map_append, hrequested]
      simp
    · cases hstep
  | request =>
    have hbusy : s.requester ≠ .idle := by
      intro hr
      rw [AsyncOperations.step, AsyncOperations.request, hr] at hstep
      cases hstep
    obtain ⟨t, ht, horderly⟩ := h.request hbusy
    obtain ⟨-, rfl⟩ := Prod.mk.inj (Option.some.inj (hstep.symm.trans ht))
    exact horderly
  | work =>
    have hbusy : s.worker = .waiting → s.eq ≠ [] := by
      intro hw heq
      rw [AsyncOperations.step, AsyncOperations.work, hw, heq] at hstep
      cases hstep
    obtain ⟨t, ht, horderly⟩ := h.work hbusy
    obtain ⟨-, rfl⟩ := Prod.mk.inj (Option.some.inj (hstep.symm.trans ht))
    exact horderly

/-- In every order of the steps of the two threads: the operations that have been carried out are,
in order, those that were requested first, and the others wait in the events that have been pushed
and in the call that is under way; no event is in two places, and none is lost; and a thread is
only held up where it waits for an event, so nothing is called that has not been set. -/
theorem operations_run_once {bytes : Nat} (hbytes : 0 < bytes) {commands : List (AsyncCommand Op)}
    (hrun : Run step (fun _ _ _ ↦ True) (start Op bytes) commands s) :
    s.requested.map some = s.executed.map some ++ s.outstanding ∧
      s.places.Perm (List.range s.created) ∧
      (s.requester ≠ .idle → s.request.isSome) ∧
      ((s.worker = .waiting → s.eq ≠ []) → s.work.isSome) := by
  have h : s.Orderly :=
    hrun.invariant Orderly (fun _ _ _ _ h _ hstep ↦ h.step hstep) (orderly_start hbytes)
  refine ⟨h.requested, h.perm, fun hbusy ↦ ?_, fun hbusy ↦ ?_⟩
  · obtain ⟨t, ht, -⟩ := h.request hbusy
    exact Option.isSome_of_eq_some ht
  · obtain ⟨t, ht, -⟩ := h.work hbusy
    exact Option.isSome_of_eq_some ht

/-- All the events that fit into one block are made; one operation is requested while another one
is carried out. -/
theorem operations_run_once_two :
    ∃ (commands : List (AsyncCommand Nat)) (s : AsyncOperations Nat),
      Run step (fun _ _ _ ↦ True) (start Nat 8) commands s ∧
      (s.requested, s.executed, s.created) = ([7, 8], [7], 127) ∧
      s.requested.map some = s.executed.map some ++ s.outstanding ∧
      s.places.Perm (List.range s.created) ∧
      (s.requester ≠ .idle → s.request.isSome) ∧
      ((s.worker = .waiting → s.eq ≠ []) → s.work.isSome) := by
  have hsome : (runAll step (fun _ _ _ ↦ true) (start Nat 8)
      (List.replicate 768 .work ++ .queueEvent 7 :: List.replicate 9 .request ++
        [.work, .queueEvent 8, .request, .work])).map (fun s ↦
          (s.requested, s.executed, s.created)) = some ([7, 8], [7], 127) := by
    decide +kernel
  obtain ⟨s, hs, hlogs⟩ := Option.map_eq_some_iff.mp hsome
  have hrun := (Run.of_runAll hs).mono (o := fun _ _ _ ↦ True) fun _ _ _ _ ↦ trivial
  exact ⟨_, s, hrun, hlogs, operations_run_once (by decide) hrun⟩

end AsyncOperations

end Vuknob
