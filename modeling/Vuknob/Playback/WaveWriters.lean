import Mathlib.Data.List.Perm.Basic
import Vuknob.Library.Runs
import Vuknob.Library.SharedLinks

/-!
# The pool of writers of a wave file

`src_jni/dynlib/riff_wave_output.c:50–174` with the pointers in the writers. The thread of the
asynchronous operations may carry out any operation that it has been given at any time between two
calls; a poll looks at every `finished` once, so what happens during a call may as well happen
before it or after it.
-/

namespace Vuknob

open Library

/-- What a writer is to write, and where. -/
structure WriterContents where
  fd : Int32
  data : List UInt8
  deriving DecidableEq

/-- `AsyncRiffWriterContainer` and the members of all writers, known by their numbers,
`src_jni/dynlib/riff_wave_output.h:33–52`; `inFlight` is what the thread has been given and has not
carried out. -/
structure WriterPool where
  allocated : Nat
  unused : Option Nat
  pending : Option Nat
  next : Nat → Option Nat
  prev : Nat → Option Nat
  finished : Nat → Bool
  inFlight : Nat → Bool
  contents : Nat → WriterContents

namespace WriterPool

/-- The list of the writers that may be used. -/
def unusedLinks (s : WriterPool) : Links Nat := ⟨s.unused, s.next, s.prev⟩

/-- The list of the writers that have been given to the thread. -/
def pendingLinks (s : WriterPool) : Links Nat := ⟨s.pending, s.next, s.prev⟩

/-- The body of the loop of `allocate_async_riff_writers`,
`src_jni/dynlib/riff_wave_output.c:68–76`. -/
def allocateBody (arw : Nat) (acc : Option Nat × WriterPool) (k : Nat) : Option Nat × WriterPool :=
  let (prev, s) := acc
  (some (arw + k),
    { s with
      prev := Function.update s.prev (arw + k) prev
      next := Function.update s.next (arw + k) (some (arw + k + 1))
      finished := Function.update s.finished (arw + k) false })

/-- `allocate_async_riff_writers`, `src_jni/dynlib/riff_wave_output.c:60–80`, for `nr > 0`;
`enough` says whether there is memory. -/
def allocateAsyncRiffWriters (s : WriterPool) (nr : Nat) (enough : Bool) :
    Option Nat × WriterPool :=
  if enough then
    let arw := s.allocated
    let (_, s) := (List.range nr).foldl (allocateBody arw) (none, s)
    (some arw,
      { s with
        allocated := arw + nr
        next := Function.update s.next (arw + nr - 1) none })
  else (none, s)

/-- `prepare_async_riff_writer_container`, `src_jni/dynlib/riff_wave_output.c:82–87`, for a
container that has been cleared. -/
def prepare (enough : Bool) (contents : Nat → WriterContents) : WriterPool :=
  let s : WriterPool :=
    ⟨0, none, none, fun _ ↦ none, fun _ ↦ none, fun _ ↦ false, fun _ ↦ false, contents⟩
  let (arw, s) := s.allocateAsyncRiffWriters 200 enough
  { s with unused := arw }

/-- A writer is taken out of the pending queue, `src_jni/dynlib/riff_wave_output.c:96–102`. -/
def dropPending (s : WriterPool) (arw : Nat) : WriterPool :=
  { s with
    pending := match s.prev arw with
      | some _ => s.pending
      | none => s.next arw
    next := match s.prev arw with
      | some prev => Function.update s.next prev (s.next arw)
      | none => s.next
    prev := match s.next arw with
      | some next => Function.update s.prev next (s.prev arw)
      | none => s.prev }

/-- A writer is inserted into the unused queue, `src_jni/dynlib/riff_wave_output.c:104–110`. -/
def insertUnused (s : WriterPool) (arw : Nat) : WriterPool :=
  { s with
    unused := some arw
    next := Function.update s.next arw s.unused
    prev := match s.unused with
      | none => Function.update s.prev arw none
      | some unused => Function.update (Function.update s.prev arw none) unused (some arw) }

/-- The loop of `poll_pending_async_riff_writers`, `src_jni/dynlib/riff_wave_output.c:91–116`. -/
def pollFrom : Nat → Option Nat → WriterPool → Option WriterPool
  | _, none, s => some s
  | 0, some _, _ => none
  | fuel + 1, some arw, s =>
    pollFrom fuel (s.next arw)
      (if s.finished arw then (s.dropPending arw).insertUnused arw else s)

/-- `poll_pending_async_riff_writers`, `src_jni/dynlib/riff_wave_output.c:89–117`. -/
def pollPendingAsyncRiffWriters (s : WriterPool) : Option WriterPool :=
  pollFrom s.allocated s.pending s

/-- `queue_async_writer`, `src_jni/dynlib/riff_wave_output.c:119–132`. -/
def queueAsyncWriter (s : WriterPool) (rv : Nat) : WriterPool :=
  { s with
    finished := Function.update s.finished rv false
    pending := some rv
    next := Function.update s.next rv s.pending
    prev := match s.pending with
      | none => Function.update s.prev rv none
      | some pending => Function.update (Function.update s.prev rv none) pending (some rv)
    inFlight := Function.update s.inFlight rv true }

/-- Where there is no unused writer, more of them are allocated,
`src_jni/dynlib/riff_wave_output.c:139`. -/
def refillUnused (s : WriterPool) (enough : Bool) : WriterPool :=
  match s.unused with
  | some _ => s
  | none =>
    let (arw, s) := s.allocateAsyncRiffWriters 32 enough
    { s with unused := arw }

/-- The first unused writer is taken, `src_jni/dynlib/riff_wave_output.c:141–149`; `none` is the
write to `NULL->prev`. -/
def takeUnused (s : WriterPool) : Option (Option Nat × WriterPool) :=
  match s.unused with
  | none => some (none, s)
  | some rv =>
    match s.next rv with
    | none => none
    | some unused =>
      some (some rv, { s with unused := some unused, prev := Function.update s.prev unused none })

/-- `get_async_riff_writer`, `src_jni/dynlib/riff_wave_output.c:134–150`. -/
def getAsyncRiffWriter (s : WriterPool) (enough : Bool) : Option (Option Nat × WriterPool) :=
  s.pollPendingAsyncRiffWriters.bind fun s ↦ (s.refillUnused enough).takeUnused

/-- `async_write_to_riff`, `src_jni/dynlib/riff_wave_output.c:152–168`, with its value. -/
def asyncWriteToRiff (s : WriterPool) (enough : Bool) (contents : WriterContents) :
    Option (Nat × WriterPool) :=
  (s.getAsyncRiffWriter enough).map fun (arw, s) ↦
    match arw with
    | none => (0, s)
    | some arw =>
      (contents.data.length,
        { s with contents := Function.update s.contents arw contents }.queueAsyncWriter arw)

/-- The thread carries out the operation of a writer, if it has been given it,
`src_jni/async_operations.cc:84–87`. -/
def complete (s : WriterPool) (arw : Nat) : WriterPool :=
  if s.inFlight arw then
    { s with
      finished := Function.update s.finished arw true
      inFlight := Function.update s.inFlight arw false }
  else s

end WriterPool

/-- What may happen to a pool. -/
inductive WriterOp
  | write (enough : Bool) (contents : WriterContents)
  | complete (arw : Nat)
  | poll

namespace WriterPool

/-- One operation with its value; `none` is a write to a null pointer, or a loop without an end. -/
def step (s : WriterPool) : WriterOp → Option (Nat × WriterPool)
  | .write enough contents => s.asyncWriteToRiff enough contents
  | .complete arw => some (0, s.complete arw)
  | .poll => s.pollPendingAsyncRiffWriters.map fun s' ↦ (0, s')

/-- The writers of the unused queue, and those of the pending one whose operations have finished. -/
def spare (s : WriterPool) : Nat :=
  (s.unusedLinks.nodesFrom s.allocated s.unused).length +
    (s.pendingLinks.nodesFrom s.allocated s.pending).countP s.finished

/-- When something is written, there is not just one writer left. -/
def NotLast (s : WriterPool) : WriterOp → Prop
  | .write _ _ => s.spare ≠ 1
  | _ => True

/-! ## Who has a writer -/

/-- Both queues are linked to and fro, every writer is in one of them, once, and a pending one is
in flight until it has finished. -/
structure Owned (s : WriterPool) (free queued : List Nat) : Prop where
  unused : s.unusedLinks.Leads free
  pending : s.pendingLinks.Leads queued
  perm : (free ++ queued).Perm (List.range s.allocated)
  idle : ∀ arw ∉ queued, s.inFlight arw = false
  busy : ∀ arw ∈ queued, s.inFlight arw = !s.finished arw

variable {s s' : WriterPool} {unused pending : List Nat}

theorem Owned.nodup (h : s.Owned unused pending) : (unused ++ pending).Nodup :=
  h.perm.nodup_iff.mpr List.nodup_range

theorem Owned.notMem (h : s.Owned unused pending) {arw : Nat} (hunused : arw ∈ unused) :
    arw ∉ pending := fun hpending ↦ List.disjoint_of_nodup_append h.nodup hunused hpending

theorem Owned.length_add (h : s.Owned unused pending) :
    unused.length + pending.length = s.allocated := by
  have hlength := h.perm.length_eq
  rwa [List.length_append, List.length_range] at hlength

/-- The queues can be read off the pointers. -/
theorem Owned.spare_eq (h : s.Owned unused pending) :
    s.spare = unused.length + pending.countP s.finished := by
  have hlength := h.length_add
  have hunused : s.unused = unused.head? := h.unused.head
  have hpending : s.pending = pending.head? := h.pending.head
  have hunused' : s.unusedLinks.Leads ([] ++ unused) := h.unused
  have hpending' : s.pendingLinks.Leads ([] ++ pending) := h.pending
  rw [spare, hunused, hpending, hunused'.nodesFrom (by omega), hpending'.nodesFrom (by omega)]

/-- What a poll does not change. -/
structure Kept (s s' : WriterPool) : Prop where
  allocated : s'.allocated = s.allocated
  finished : s'.finished = s.finished
  inFlight : s'.inFlight = s.inFlight
  contents : s'.contents = s.contents

theorem pendingLinks_dropPending {arw : Nat} {front back : List Nat}
    (h : s.pendingLinks.Leads (front ++ arw :: back)) :
    (s.dropPending arw).pendingLinks = s.pendingLinks.unlink arw := by
  have hnext : s.next arw = back.head? := h.linked.next_eq
  have hprev : s.prev arw = front.getLast? := by
    have hprev : s.prev arw = _ := h.linked.prev_eq
    rw [hprev, Option.or_none]
  have hhead : s.pending = (front ++ arw :: back).head? := h.head
  have hpending : (s.dropPending arw).pending =
      if s.pending = some arw then s.next arw else s.pending := by
    rw [dropPending, hprev, hhead]
    cases front with
    | nil => exact (if_pos rfl).symm
    | cons first front =>
      have hne : first ≠ arw := by
        rintro rfl
        exact (List.nodup_cons.mp h.nodup).1 (List.mem_append_right _ List.mem_cons_self)
      rw [List.cons_append, List.head?_cons, if_neg fun he ↦ hne (Option.some.inj he),
        List.getLast?_cons]
  rw [pendingLinks, hpending]
  simp only [pendingLinks, dropPending, Links.unlink]
  cases s.prev arw <;> cases s.next arw <;> rfl

theorem unusedLinks_insertUnused (s : WriterPool) (arw : Nat) :
    (s.insertUnused arw).unusedLinks = s.unusedLinks.pushFront arw := by
  simp only [unusedLinks, insertUnused, Links.pushFront]
  cases s.unused <;> rfl

theorem pendingLinks_queueAsyncWriter (s : WriterPool) (rv : Nat) :
    (s.queueAsyncWriter rv).pendingLinks = s.pendingLinks.pushFront rv := by
  simp only [pendingLinks, queueAsyncWriter, Links.pushFront]
  cases s.pending <;> rfl

/-- A pending writer that has finished goes to the unused queue. -/
theorem Owned.recycle {arw : Nat} {front back : List Nat}
    (h : s.Owned unused (front ++ arw :: back)) (hfinished : s.finished arw = true) :
    ((s.dropPending arw).insertUnused arw).Owned (arw :: unused) (front ++ back) := by
  have hmem : arw ∈ front ++ arw :: back := List.mem_append_right _ List.mem_cons_self
  have hsub : ∀ c ∈ front ++ back, c ∈ front ++ arw :: back := fun c hc ↦ by
    rw [List.mem_append, List.mem_cons]
    exact (List.mem_append.mp hc).imp_right .inr
  have harw : arw ∉ unused := fun hunused ↦ h.notMem hunused hmem
  have hother : ∀ c ∈ front ++ back, c ∉ arw :: unused := by
    intro c hc hc'
    rcases List.mem_cons.mp hc' with rfl | hunused
    · exact (List.nodup_cons.mp (List.nodup_middle.mp h.pending.nodup)).1 hc
    · exact h.notMem hunused (hsub c hc)
  have hdrop : (s.dropPending arw).pendingLinks.Leads (front ++ back) := by
    rw [pendingLinks_dropPending h.pending]
    exact h.pending.unlink
  have hframe : ∀ c ∈ unused, (s.dropPending arw).next c = s.next c ∧
      (s.dropPending arw).prev c = s.prev c := by
    intro c hc
    have hunlink := h.pending.unlink_frame (c := c) fun hc' ↦ h.notMem hc (hsub c hc')
    rwa [← pendingLinks_dropPending h.pending] at hunlink
  have hunused : (s.dropPending arw).unusedLinks.Leads unused :=
    h.unused.congr rfl (fun c hc ↦ (hframe c hc).1) fun c hc ↦ (hframe c hc).2
  have hlinks := unusedLinks_insertUnused (s.dropPending arw) arw
  refine ⟨hlinks ▸ hunused.pushFront harw, ?_, ?_, fun c hc ↦ ?_, fun c hc ↦ h.busy c (hsub c hc)⟩
  · refine hdrop.congr rfl (fun c hc ↦ ?_) fun c hc ↦ ?_
    · exact (congrArg (Links.next · c) hlinks).trans (hunused.pushFront_frame (hother c hc)).1
    · exact (congrArg (Links.prev · c) hlinks).trans (hunused.pushFront_frame (hother c hc)).2
  · refine List.Perm.trans ?_ h.perm
    rw [List.cons_append, ← List.append_assoc, ← List.append_assoc]
    exact List.perm_middle.symm
  · show s.inFlight c = false
    by_cases hc' : c = arw
    · rw [hc', h.busy arw hmem, hfinished]
      rfl
    · refine h.idle c fun hmem' ↦ hc ?_
      rw [List.mem_append, List.mem_cons] at hmem'
      exact List.mem_append.mpr (hmem'.imp_right fun hmem' ↦ hmem'.resolve_left hc')

/-- The loop goes through the pending writers. -/
theorem Owned.pollFrom {front rest : List Nat} {fuel : Nat} (h : s.Owned unused (front ++ rest))
    (hfuel : rest.length ≤ fuel) :
    ∃ s', pollFrom fuel rest.head? s = some s' ∧ Kept s s' ∧
      s'.Owned ((rest.filter s.finished).reverse ++ unused)
        (front ++ rest.filter fun arw ↦ !s.finished arw) := by
  induction rest generalizing s unused front fuel with
  | nil =>
    refine ⟨s, ?_, ⟨rfl, rfl, rfl, rfl⟩, h⟩
    cases fuel <;> rfl
  | cons arw rest ih =>
    rw [List.length_cons] at hfuel
    obtain ⟨fuel, rfl⟩ : ∃ n, fuel = n + 1 := ⟨fuel - 1, by omega⟩
    have hnext : s.next arw = rest.head? := h.pending.linked.next_eq
    rw [List.head?_cons, WriterPool.pollFrom, hnext]
    by_cases hfinished : s.finished arw = true
    · obtain ⟨s', hs', hkept, howned⟩ := ih (h.recycle hfinished) (by omega : rest.length ≤ fuel)
      rw [if_pos hfinished, List.filter_cons_of_pos hfinished,
        List.filter_cons_of_neg (by rw [hfinished]; nofun), List.reverse_cons, List.append_assoc]
      exact ⟨s', hs', ⟨hkept.allocated, hkept.finished, hkept.inFlight, hkept.contents⟩, howned⟩
    · rw [List.append_cons] at h
      obtain ⟨s', hs', hkept, howned⟩ := ih h (by omega : rest.length ≤ fuel)
      rw [if_neg hfinished, List.filter_cons_of_neg hfinished,
        List.filter_cons_of_pos (by simpa using hfinished), List.append_cons]
      exact ⟨s', hs', hkept, howned⟩

/-- After a poll all pending writers are in flight, or have finished since. -/
theorem Owned.poll (h : s.Owned unused pending) :
    ∃ s', s.pollPendingAsyncRiffWriters = some s' ∧ Kept s s' ∧
      s'.Owned ((pending.filter s.finished).reverse ++ unused)
        (pending.filter fun arw ↦ !s.finished arw) := by
  have hhead : s.pending = pending.head? := h.pending.head
  have hlength := h.length_add
  have hwhole : s.Owned unused ([] ++ pending) := h
  rw [pollPendingAsyncRiffWriters, hhead]
  exact hwhole.pollFrom (by omega)

/-! ## Getting a writer -/

/-- Some writers behind the last one have been put down in memory. -/
structure Grown (s : WriterPool) (arw n : Nat) (s' : WriterPool) : Prop where
  next : ∀ c, s'.next c = if arw ≤ c ∧ c < arw + n then some (c + 1) else s.next c
  prev : ∀ c, s'.prev c =
    if arw ≤ c ∧ c < arw + n then if c = arw then none else some (c - 1) else s.prev c
  finished : ∀ c < arw, s'.finished c = s.finished c
  unused : s'.unused = s.unused
  pending : s'.pending = s.pending
  inFlight : s'.inFlight = s.inFlight
  contents : s'.contents = s.contents

/-- The loop puts down one writer after the other. -/
theorem grown_foldl (s : WriterPool) (arw n : Nat) :
    Grown s arw n ((List.range n).foldl (allocateBody arw) (none, s)).2 ∧
      ((List.range n).foldl (allocateBody arw) (none, s)).1 =
        if n = 0 then none else some (arw + n - 1) := by
  induction n with
  | zero =>
    refine ⟨⟨fun c ↦ (if_neg (by omega)).symm, fun c ↦ (if_neg (by omega)).symm, fun _ _ ↦ rfl, rfl,
      rfl, rfl, rfl⟩, rfl⟩
  | succ n ih =>
    obtain ⟨hgrown, hprev⟩ := ih
    rw [List.range_succ, List.foldl_concat]
    refine ⟨⟨fun c ↦ ?_, fun c ↦ ?_, fun c hc ↦ ?_, hgrown.unused, hgrown.pending,
      hgrown.inFlight, hgrown.contents⟩, (if_neg (Nat.succ_ne_zero n)).symm⟩
    · show Function.update _ (arw + n) _ c = _
      rw [Function.update_apply, hgrown.next]
      grind
    · show Function.update _ (arw + n) _ c = _
      rw [Function.update_apply, hgrown.prev, hprev]
      grind
    · exact (Function.update_of_ne (by omega) ..).trans (hgrown.finished c hc)

/-- What the pending writers and their contents are does not change. -/
structure KeptPending (pending : List Nat) (s s' : WriterPool) : Prop where
  finished : ∀ arw ∈ pending, s'.finished arw = s.finished arw
  inFlight : s'.inFlight = s.inFlight
  contents : s'.contents = s.contents

/-- New writers are all unused. -/
theorem Owned.allocate (h : s.Owned [] pending) {nr : Nat} (hnr : 0 < nr) :
    ∃ s', s.allocateAsyncRiffWriters nr true = (some s.allocated, s') ∧
      Owned { s' with unused := some s.allocated } (List.range' s.allocated nr) pending ∧
      KeptPending pending s s' := by
  obtain ⟨hgrown, -⟩ := grown_foldl s s.allocated nr
  have hold : ∀ c ∈ pending, c < s.allocated :=
    fun c hc ↦ List.mem_range.mp (h.perm.mem_iff.mp hc)
  refine ⟨_, rfl, ?_, fun c hc ↦ hgrown.finished c (hold c hc), hgrown.inFlight, hgrown.contents⟩
  have hnext : ∀ c, Function.update ((List.range nr).foldl (allocateBody s.allocated)
      (none, s)).2.next (s.allocated + nr - 1) none c =
      if s.allocated ≤ c ∧ c < s.allocated + nr then
        if c + 1 = s.allocated + nr then none else some (c + 1)
      else s.next c := by
    intro c
    rw [Function.update_apply, hgrown.next]
    grind
  refine ⟨⟨?_, List.nodup_range', Links.dlist_range' (fun c hlow hhigh ↦ ?_) fun c hlow hhigh ↦ ?_⟩,
    ?_, ?_, ?_, ?_⟩
  · obtain ⟨nr, rfl⟩ : ∃ n, nr = n + 1 := ⟨nr - 1, by omega⟩
    rw [List.range'_succ]
    rfl
  · exact (hnext c).trans (if_pos ⟨hlow, hhigh⟩)
  · exact (hgrown.prev c).trans (if_pos ⟨hlow, hhigh⟩)
  · refine h.pending.congr hgrown.pending (fun c hc ↦ ?_) fun c hc ↦ ?_
    · have hc := hold c hc
      exact (hnext c).trans (if_neg (by omega))
    · have hc := hold c hc
      exact (hgrown.prev c).trans (if_neg (by omega))
  · show (_ ++ pending).Perm (List.range (s.allocated + nr))
    have hsplit : List.range (s.allocated + nr) =
        List.range s.allocated ++ List.range' s.allocated nr := by
      have happend : List.range' 0 s.allocated ++ List.range' (0 + s.allocated) nr = _ :=
        List.range'_append_1
      rw [List.range_eq_range', List.range_eq_range', ← happend, Nat.zero_add]
    rw [hsplit]
    exact List.perm_append_comm.trans (h.perm.append_right _)
  · intro c hc
    exact (congrFun hgrown.inFlight c).trans (h.idle c hc)
  · intro c hc
    show WriterPool.inFlight _ c = !WriterPool.finished _ c
    rw [hgrown.inFlight, hgrown.finished c (hold c hc)]
    exact h.busy c hc

/-- Where there is nothing unused there are then many writers, or still none. -/
theorem Owned.refill (h : s.Owned unused pending) (enough : Bool) :
    ∃ unused', (s.refillUnused enough).Owned unused' pending ∧
      KeptPending pending s (s.refillUnused enough) ∧
      (unused' = unused ∨ unused = [] ∧ unused'.length = 32) := by
  have hhead : s.unused = unused.head? := h.unused.head
  rw [refillUnused, hhead]
  cases unused with
  | cons arw unused => exact ⟨_, h, ⟨fun _ _ ↦ rfl, rfl, rfl⟩, .inl rfl⟩
  | nil =>
    cases enough with
    | true =>
      obtain ⟨s', hs', howned, hkept⟩ := h.allocate (by decide : 0 < 32)
      simp only [List.head?_nil, hs']
      exact ⟨_, howned, ⟨hkept.finished, hkept.inFlight, hkept.contents⟩,
        .inr ⟨trivial, List.length_range'⟩⟩
    | false =>
      refine ⟨[], ?_, ⟨fun _ _ ↦ rfl, rfl, rfl⟩, .inl rfl⟩
      have hsame : { s with unused := none } = s := by
        rw [← show s.unused = none from hhead]
      show Owned { s with unused := none } [] pending
      rwa [hsame]

/-- The last unused writer cannot be taken. -/
theorem Owned.takeUnused_last {arw : Nat} (h : s.Owned [arw] pending) : s.takeUnused = none := by
  have hhead : s.unused = some arw := h.unused.head
  have hnext : s.next arw = none := h.unused.next_head
  simp only [takeUnused, hhead, hnext]

/-- A writer is taken, written to and queued. -/
theorem Owned.takeUnused {rv second : Nat} {rest : List Nat}
    (h : s.Owned (rv :: second :: rest) pending) (contents : WriterContents) :
    ∃ t, s.takeUnused = some (some rv, t) ∧ KeptPending pending s t ∧
      ({ t with contents := Function.update t.contents rv contents }.queueAsyncWriter rv).Owned
        (second :: rest) (rv :: pending) := by
  have hhead : s.unused = some rv := h.unused.head
  have hnext : s.next rv = some second := h.unused.next_head
  have hrv : rv ∉ second :: rest := (List.nodup_cons.mp h.unused.nodup).1
  have hrv' : rv ∉ pending := h.notMem List.mem_cons_self
  have hsecond : second ∉ pending := h.notMem (List.mem_cons_of_mem _ List.mem_cons_self)
  refine ⟨{ s with unused := some second, prev := Function.update s.prev second none }, ?_,
    ⟨fun _ _ ↦ rfl, rfl, rfl⟩, ?_⟩
  · simp only [WriterPool.takeUnused, hhead, hnext]
  let t : WriterPool :=
    { s with
      unused := some second
      prev := Function.update s.prev second none
      contents := Function.update s.contents rv contents }
  show (t.queueAsyncWriter rv).Owned (second :: rest) (rv :: pending)
  have hunused : t.unusedLinks.Leads (second :: rest) := by
    refine ⟨rfl, (List.nodup_cons.mp h.unused.nodup).2, h.unused.linked.2.2.congr (fun _ _ ↦ rfl)
      (fun c hc ↦ ?_) fun c hc ↦ Function.update_of_ne ?_ ..⟩
    · obtain rfl : second = c := Option.some.inj hc
      exact Function.update_self ..
    · rintro rfl
      exact (List.nodup_cons.mp (List.nodup_cons.mp h.unused.nodup).2).1 hc
  have hpending : t.pendingLinks.Leads pending := by
    refine h.pending.congr rfl (fun _ _ ↦ rfl) fun c hc ↦ Function.update_of_ne ?_ ..
    rintro rfl
    exact hsecond hc
  have hother : ∀ c ∈ second :: rest, c ∉ rv :: pending := by
    intro c hc hc'
    rcases List.mem_cons.mp hc' with rfl | hc'
    · exact hrv hc
    · exact h.notMem (List.mem_cons_of_mem _ hc) hc'
  have hlinks := pendingLinks_queueAsyncWriter t rv
  refine ⟨?_, hlinks ▸ hpending.pushFront hrv', ?_, fun c hc ↦ ?_, fun c hc ↦ ?_⟩
  · refine hunused.congr rfl (fun c hc ↦ ?_) fun c hc ↦ ?_
    · exact (congrArg (Links.next · c) hlinks).trans (hpending.pushFront_frame (hother c hc)).1
    · exact (congrArg (Links.prev · c) hlinks).trans (hpending.pushFront_frame (hother c hc)).2
  · exact List.perm_middle.trans h.perm
  · rw [List.mem_cons, not_or] at hc
    exact (Function.update_of_ne hc.1 ..).trans (h.idle c hc.2)
  · show Function.update s.inFlight rv true c = !Function.update s.finished rv false c
    by_cases hc' : c = rv
    · rw [hc', Function.update_self, Function.update_self]
      rfl
    · rw [Function.update_of_ne hc', Function.update_of_ne hc']
      exact h.busy c ((List.mem_cons.mp hc).resolve_left hc')

/-- What is in flight is not written to. -/
def InFlightKept (s s' : WriterPool) : Prop :=
  ∀ arw, s.inFlight arw = true → s'.contents arw = s.contents arw

theorem Owned.length_polled (h : s.Owned unused pending) :
    ((pending.filter s.finished).reverse ++ unused).length = s.spare := by
  rw [h.spare_eq, List.length_append, List.length_reverse, ← List.countP_eq_length_filter,
    Nat.add_comm]

/-- Something is written, unless the last unused writer is to be taken. -/
theorem Owned.write (h : s.Owned unused pending) (enough : Bool) (contents : WriterContents)
    (hspare : s.spare ≠ 1) :
    ∃ r s' unused' pending', s.asyncWriteToRiff enough contents = some (r, s') ∧
      s'.Owned unused' pending' ∧ InFlightKept s s' := by
  obtain ⟨s₁, hs₁, hkept₁, h₁⟩ := h.poll
  obtain ⟨unused₂, h₂, hkept₂, hunused₂⟩ := h₁.refill enough
  have hcontents : (s₁.refillUnused enough).contents = s.contents :=
    hkept₂.contents.trans hkept₁.contents
  rw [asyncWriteToRiff, getAsyncRiffWriter, hs₁, Option.bind_some]
  match unused₂, hunused₂, h₂ with
  | [], _, h₂ =>
    have hhead : (s₁.refillUnused enough).unused = none := h₂.unused.head
    refine ⟨0, _, [], _, ?_, h₂, fun arw _ ↦ congrFun hcontents arw⟩
    simp only [WriterPool.takeUnused, hhead, Option.map_some]
  | [arw], hunused₂, _ =>
    -- there was no other writer before
    exfalso
    rcases hunused₂ with hsame | ⟨-, hlength⟩
    · exact hspare (h.length_polled.symm.trans (congrArg List.length hsame.symm))
    · cases hlength
  | rv :: second :: rest, _, h₂ =>
    obtain ⟨t, ht, hkept, howned⟩ := h₂.takeUnused contents
    simp only [ht, Option.map_some]
    refine ⟨_, _, _, _, rfl, howned, fun arw harw ↦ ?_⟩
    have hne : arw ≠ rv := by
      rintro rfl
      have hidle := h₂.idle arw (h₂.notMem List.mem_cons_self)
      rw [hkept₂.inFlight, hkept₁.inFlight, harw] at hidle
      cases hidle
    exact (Function.update_of_ne hne ..).trans (congrFun (hkept.contents.trans hcontents) arw)

/-- With one writer left there is a write to a null pointer. -/
theorem Owned.write_last (h : s.Owned unused pending) (enough : Bool) (contents : WriterContents)
    (hspare : s.spare = 1) : s.asyncWriteToRiff enough contents = none := by
  obtain ⟨s₁, hs₁, -, h₁⟩ := h.poll
  obtain ⟨arw, harw⟩ := List.length_eq_one_iff.mp (h.length_polled.trans hspare)
  rw [harw] at h₁
  have hhead : s₁.unused = some arw := h₁.unused.head
  have hrefill : s₁.refillUnused enough = s₁ := by rw [refillUnused, hhead]
  rw [asyncWriteToRiff, getAsyncRiffWriter, hs₁, Option.bind_some, hrefill, h₁.takeUnused_last]
  rfl

/-- The thread finishes an operation. -/
theorem Owned.complete (h : s.Owned unused pending) (arw : Nat) :
    (s.complete arw).Owned unused pending := by
  rw [WriterPool.complete]
  split
  · refine ⟨h.unused, h.pending, h.perm, fun c hc ↦ ?_, fun c hc ↦ ?_⟩
    · show Function.update s.inFlight arw false c = false
      rw [Function.update_apply, h.idle c hc, ite_self]
    · show Function.update s.inFlight arw false c = !Function.update s.finished arw true c
      rw [Function.update_apply, Function.update_apply]
      split
      · rfl
      · exact h.busy c hc
  · exact h

/-- What one operation does. -/
theorem Owned.step (h : s.Owned unused pending) {op : WriterOp} (hop : s.NotLast op) :
    ∃ r s' unused' pending', s.step op = some (r, s') ∧ s'.Owned unused' pending' ∧
      InFlightKept s s' := by
  cases op with
  | write enough contents => exact h.write enough contents hop
  | complete arw =>
    refine ⟨0, _, _, _, rfl, h.complete arw, fun c _ ↦ ?_⟩
    rw [WriterPool.complete]
    split <;> rfl
  | poll =>
    obtain ⟨s', hs', hkept, howned⟩ := h.poll
    exact ⟨0, s', _, _, by rw [WriterPool.step, hs']; rfl, howned,
      fun c _ ↦ congrFun hkept.contents c⟩

/-- The pool with its first writers, or with none. -/
theorem owned_prepare (enough : Bool) (contents : Nat → WriterContents) :
    ∃ unused, (prepare enough contents).Owned unused [] ∧
      unused.length = if enough then 200 else 0 := by
  let s : WriterPool :=
    ⟨0, none, none, fun _ ↦ none, fun _ ↦ none, fun _ ↦ false, fun _ ↦ false, contents⟩
  have hs : s.Owned [] [] :=
    ⟨⟨rfl, .nil, trivial⟩, ⟨rfl, .nil, trivial⟩, .nil, fun _ _ ↦ rfl, nofun⟩
  cases enough with
  | true =>
    obtain ⟨s', hs', howned, -⟩ := hs.allocate (by decide : 0 < 200)
    refine ⟨List.range' 0 200, ?_, List.length_range'⟩
    rw [prepare, hs']
    exact howned
  | false => exact ⟨[], hs, rfl⟩

/-- A call that finds two unused writers while the others are in flight leaves one less. -/
theorem Owned.write_busy {rv second : Nat} {rest : List Nat}
    (h : s.Owned (rv :: second :: rest) pending) (hbusy : ∀ arw ∈ pending, s.finished arw = false)
    (enough : Bool) (contents : WriterContents) :
    ∃ s', s.asyncWriteToRiff enough contents = some (contents.data.length, s') ∧
      s'.Owned (second :: rest) (rv :: pending) ∧
      ∀ arw ∈ rv :: pending, s'.finished arw = false := by
  obtain ⟨s₁, hs₁, hkept₁, h₁⟩ := h.poll
  have hnone : pending.filter s.finished = [] :=
    List.filter_eq_nil_iff.mpr fun arw harw ↦ by simp [hbusy arw harw]
  have hall : (pending.filter fun arw ↦ !s.finished arw) = pending :=
    List.filter_eq_self.mpr fun arw harw ↦ by simp [hbusy arw harw]
  rw [hnone, hall] at h₁
  have hhead : s₁.unused = some rv := h₁.unused.head
  have hrefill : s₁.refillUnused enough = s₁ := by rw [refillUnused, hhead]
  obtain ⟨t, ht, hkept, howned⟩ := h₁.takeUnused contents
  rw [asyncWriteToRiff, getAsyncRiffWriter, hs₁, Option.bind_some, hrefill, ht, Option.map_some]
  refine ⟨_, rfl, howned, fun arw harw ↦ ?_⟩
  show Function.update t.finished rv false arw = false
  rw [Function.update_apply]
  split
  · rfl
  · next hne =>
    have harw := (List.mem_cons.mp harw).resolve_left hne
    rw [hkept.finished arw harw, hkept₁.finished, hbusy arw harw]

/-- If nothing finishes, the calls get to the last unused writer. -/
theorem Owned.run_to_last {n : Nat} (h : s.Owned unused pending)
    (hbusy : ∀ arw ∈ pending, s.finished arw = false) (hlength : unused.length = n + 1)
    (contents : WriterContents) :
    ∃ t, Run WriterPool.step (fun _ _ _ ↦ True) s (List.replicate n (.write true contents)) t ∧
      t.step (.write true contents) = none := by
  induction n generalizing s unused pending with
  | zero =>
    refine ⟨s, .nil s, h.write_last true contents ?_⟩
    have hnone : pending.countP s.finished = 0 :=
      List.countP_eq_zero.mpr fun arw harw ↦ by simp [hbusy arw harw]
    rw [h.spare_eq, hlength, hnone]
  | succ n ih =>
    match unused, h, hlength with
    | rv :: second :: rest, h, hlength =>
      obtain ⟨s', hs', howned, hbusy'⟩ := h.write_busy hbusy true contents
      obtain ⟨t, hrun, hlast⟩ := ih howned hbusy' (Nat.succ.inj hlength)
      exact ⟨t, .cons hs' trivial hrun, hlast⟩

end WriterPool

end Vuknob
