import Mathlib.Data.List.Pairwise
import Vuknob.Sequence.Servers

/-!
# Pattern instances

The instances of a sequence are the stretches of time in which its patterns play. Adding one looks
for instances with an end in the new stretch, `src_jni/engine_code/sequence.cc:622–642`, and
deleting a pattern does not look at instances at all, `src_jni/engine_code/sequence.cc:596–611`.
-/

namespace Vuknob

open Library

/-! ## Overlap -/

namespace PatternInstance

/-- The instance plays at the time. -/
def Covers (pin : PatternInstance) (t : Int) : Prop :=
  pin.startAt.toInt ≤ t ∧ t < pin.stopAt.toInt

/-- The instances are never played at the same time. -/
def Apart (pin other : PatternInstance) : Prop := ∀ t, ¬ (pin.Covers t ∧ other.Covers t)

instance : Std.Symm Apart := ⟨fun _ _ h t ht ↦ h t ht.symm⟩

/-- The instance starts before the other one and stops after it. -/
def encloses (pin other : PatternInstance) : Bool :=
  pin.startAt.toInt < other.startAt.toInt ∧ other.stopAt.toInt < pin.stopAt.toInt

/-- The instance plays for some time. -/
def Lasts (pin : PatternInstance) : Prop := pin.startAt.toInt < pin.stopAt.toInt

theorem apart_iff {pin other : PatternInstance} (h : pin.Lasts) (ho : other.Lasts) :
    pin.Apart other ↔
      pin.stopAt.toInt ≤ other.startAt.toInt ∨ other.stopAt.toInt ≤ pin.startAt.toInt := by
  simp only [Lasts] at h ho
  constructor
  · intro hapart
    have hlate := hapart (max pin.startAt.toInt other.startAt.toInt)
    simp only [Covers] at hlate
    omega
  · rintro hsides t ⟨hpin, hother⟩
    simp only [Covers] at hpin hother
    omega

theorem overlaps_iff (startAt stopAt : Int32) (pin : PatternInstance) :
    Sequence.overlaps startAt stopAt pin = true ↔
      startAt.toInt ≤ pin.startAt.toInt ∧ pin.startAt.toInt ≤ stopAt.toInt ∨
        startAt.toInt ≤ pin.stopAt.toInt ∧ pin.stopAt.toInt ≤ stopAt.toInt := by
  simp only [Sequence.overlaps, decide_eq_true_eq, ge_iff_le, Int32.le_iff_toInt_le]

/-- Of the instances that are not found to overlap, those that enclose the new one do. -/
theorem apart_iff_of_not_overlaps {pin old : PatternInstance} (h : pin.Lasts) (hold : old.Lasts)
    (hnot : ¬ Sequence.overlaps pin.startAt pin.stopAt old = true) :
    pin.Apart old ↔ ¬ old.encloses pin = true := by
  rw [overlaps_iff] at hnot
  rw [apart_iff h hold, encloses, decide_eq_true_eq]
  simp only [Lasts] at h hold
  omega

/-- What is apart from an instance is not found to overlap with one inside it. -/
theorem not_overlaps_of_encloses {pin old other : PatternInstance} (h : pin.Lasts)
    (hother : other.Lasts) (hencloses : old.encloses pin = true) (hapart : old.Apart other) :
    ¬ Sequence.overlaps pin.startAt pin.stopAt other = true := by
  rw [encloses, decide_eq_true_eq] at hencloses
  have hold : old.Lasts := by
    simp only [Lasts] at h ⊢
    omega
  rw [apart_iff hold hother] at hapart
  rw [overlaps_iff]
  simp only [Lasts] at h hother
  omega

end PatternInstance

namespace Sequence

/-- Every instance plays for some time, and no two at the same. -/
structure Unmixed (s : Sequence) : Prop where
  lasts : ∀ pin ∈ s.instanceList, pin.Lasts
  apart : s.instanceList.Pairwise PatternInstance.Apart

/-- The instance would be added inside one that is there: its range is one, its pattern exists, and
an instance starts before and stops after it. -/
def addsInside (s : Sequence) (pin : PatternInstance) : Bool :=
  pin.startAt.toInt < pin.stopAt.toInt ∧ pin.stopAt.toInt - pin.startAt.toInt < 2 ^ 31 ∧
    pin.patternId ∈ s.patterns ∧ s.instanceList.any fun old ↦ old.encloses pin

theorem Unmixed.apart_insertInstance {s : Sequence} (h : s.Unmixed) {pin : PatternInstance}
    (haccepts : s.accepts pin = true) :
    (s.insertInstance pin).instanceList.Pairwise PatternInstance.Apart ↔
      ¬ s.addsInside pin = true := by
  obtain ⟨hlt, hfits, hmem, hany⟩ := of_decide_eq_true haccepts
  have hperm := LinkedList.insertElement_perm PatternInstance.lt pin s.instanceList
  rw [insertInstance, hperm.pairwise_iff fun hapart ↦ Std.Symm.symm _ _ hapart, List.pairwise_cons,
    and_iff_left h.apart]
  have hfound : ∀ old ∈ s.instanceList,
      (pin.Apart old ↔ ¬ old.encloses pin = true) := by
    intro old hold
    refine PatternInstance.apart_iff_of_not_overlaps hlt (h.lasts old hold) fun hoverlaps ↦ ?_
    exact hany (List.any_eq_true.mpr ⟨old, hold, hoverlaps⟩)
  rw [addsInside, decide_eq_true_eq, List.any_eq_true]
  constructor
  · rintro hapart ⟨-, -, -, old, hold, hencloses⟩
    exact (hfound old hold).mp (hapart old hold) hencloses
  · intro hnot old hold
    refine (hfound old hold).mpr fun hencloses ↦ ?_
    exact hnot ⟨hlt, hfits, hmem, old, hold, hencloses⟩

/-- In a sequence whose instances are apart, an instance that would be added inside one is accepted. -/
theorem Unmixed.accepts_of_addsInside {s : Sequence} (h : s.Unmixed) {pin : PatternInstance}
    (hinside : s.addsInside pin = true) : s.accepts pin = true := by
  obtain ⟨hlt, hfits, hmem, hany⟩ := of_decide_eq_true hinside
  obtain ⟨old, hold, hencloses⟩ := List.any_eq_true.mp hany
  refine decide_eq_true ⟨hlt, hfits, hmem, fun hoverlaps ↦ ?_⟩
  obtain ⟨other, hother, hoverlaps⟩ := List.any_eq_true.mp hoverlaps
  have hout : ∀ other ∈ s.instanceList, old.Apart other →
      ¬ Sequence.overlaps pin.startAt pin.stopAt other = true := by
    intro other hother hapart
    exact PatternInstance.not_overlaps_of_encloses hlt (h.lasts other hother) hencloses hapart
  by_cases heq : old = other
  · rw [← heq, PatternInstance.overlaps_iff] at hoverlaps
    rw [PatternInstance.encloses, decide_eq_true_eq] at hencloses
    omega
  · exact hout other hother (h.apart.forall hold hother heq) hoverlaps

/-- What an operation does to the instances of the sequence. -/
def instancesAfter (s : Sequence) : SequenceOp → List PatternInstance
  | .request (.insertPatternInSequence pin) =>
    if s.accepts pin then (s.insertInstance pin).instanceList else s.instanceList
  | .request (.deletePatternFromSequence pin) => (s.processDelPatternInstance pin).instanceList
  | _ => s.instanceList

end Sequence

theorem SequenceServer.perform_instanceList (srv : SequenceServer) (op : SequenceOp) :
    (srv.perform op).sequence.instanceList = srv.sequence.instancesAfter op := by
  cases op with
  | addPattern newName => rfl
  | request r =>
    cases r with
    | deletePattern id =>
      rw [perform_delete]
      split <;> rfl
    | insertPatternInSequence pin =>
      rw [perform_insert, Sequence.instancesAfter]
      split <;> rfl
    | deletePatternFromSequence pin => rfl
    | addNote id note =>
      rw [perform, Sequence.processAddNote]
      cases srv.sequence.patterns[id]? <;> rfl
    | deleteNote id note =>
      rw [perform, Sequence.processDeleteNote]
      cases srv.sequence.patterns[id]? <;> rfl

/-- What is asked for does not add an instance inside another one. -/
def Sequence.addsOutside (s : Sequence) : SequenceOp → Bool
  | .request (.insertPatternInSequence pin) => !s.addsInside pin
  | _ => true

/-- An operation keeps the instances apart exactly if it adds none inside another one. -/
theorem Sequence.Unmixed.instancesAfter {s : Sequence} (h : s.Unmixed) (op : SequenceOp) :
    (∀ pin ∈ s.instancesAfter op, pin.Lasts) ∧
      ((s.instancesAfter op).Pairwise PatternInstance.Apart ↔ s.addsOutside op = true) := by
  have hsame : (∀ pin ∈ s.instanceList, pin.Lasts) ∧
      (s.instanceList.Pairwise PatternInstance.Apart ↔ true = true) :=
    ⟨h.lasts, iff_of_true h.apart rfl⟩
  cases op with
  | addPattern newName => exact hsame
  | request r =>
    cases r with
    | deletePattern id => exact hsame
    | insertPatternInSequence pin =>
      simp only [Sequence.instancesAfter, addsOutside, Bool.not_eq_true', ← Bool.not_eq_true]
      split
      · next haccepts =>
        refine ⟨fun other hother ↦ ?_, h.apart_insertInstance haccepts⟩
        rcases List.mem_cons.mp ((LinkedList.insertElement_perm ..).mem_iff.mp hother) with rfl | hold
        · exact (of_decide_eq_true haccepts).1
        · exact h.lasts other hold
      · next hnot =>
        exact ⟨h.lasts, iff_of_true h.apart fun hinside ↦ hnot (h.accepts_of_addsInside hinside)⟩
    | deletePatternFromSequence pin =>
      have hsub := LinkedList.dropElement_sublist PatternInstance.eq pin s.instanceList
      exact ⟨fun other hother ↦ h.lasts other (hsub.mem hother),
        iff_of_true (h.apart.sublist hsub) rfl⟩
    | addNote id note => exact hsame
    | deleteNote id note => exact hsame

namespace SequenceServers

/-- What the request asks for does not add an instance inside another one. -/
def addsOutside (w : SequenceServers) (req : ObjectId × Request) : Bool :=
  req.2.msg.sequenceOp.all (w.sequence req.1).addsOutside

/-- No two instances of a sequence are played at the same time. -/
def InstancesApart (w : SequenceServers) : Prop :=
  ∀ object, (w.sequence object).instanceList.Pairwise PatternInstance.Apart

theorem instanceList_perform (w : SequenceServers) (object : ObjectId) (op : SequenceOp)
    (j : ObjectId) : ((w.perform object op).sequence j).instanceList =
      if j = object then (w.sequence object).instancesAfter op else (w.sequence j).instanceList := by
  show (Function.update w.sequence object _ j).instanceList = _
  by_cases hj : j = object
  · rw [if_pos hj, hj, Function.update_self]
    exact SequenceServer.perform_instanceList ..
  · rw [if_neg hj, Function.update_of_ne hj]

/-- A request keeps the instances of all sequences apart exactly if it adds none inside another one. -/
theorem step_unmixed {w w' : SequenceServers} {req : ObjectId × Request}
    {r : Except Fault (Option Message)} (h : ∀ object, (w.sequence object).Unmixed)
    (hstep : w.step req = some (r, w')) :
    (∀ object, ∀ pin ∈ (w'.sequence object).instanceList, pin.Lasts) ∧
      (w'.InstancesApart ↔ w.addsOutside req = true) := by
  rcases step_cases hstep with ⟨hop, rfl⟩ | ⟨op, hop, rfl⟩
  · rw [addsOutside, hop]
    exact ⟨fun object ↦ (h object).lasts, iff_of_true (fun object ↦ (h object).apart) rfl⟩
  · obtain ⟨hlasts, hapart⟩ := (h req.1).instancesAfter op
    rw [addsOutside, hop, Option.all_some, ← hapart]
    constructor
    · intro object
      rw [instanceList_perform]
      split
      · exact hlasts
      · exact (h object).lasts
    · constructor
      · intro hall
        have hat := hall req.1
        rwa [instanceList_perform, if_pos rfl] at hat
      · intro hat object
        rw [instanceList_perform]
        split
        · exact hat
        · exact (h object).apart

/-- In every run of requests none of which adds an instance inside another one, the instances of
each sequence are apart from each other; the first request that adds one inside another ends that. -/
theorem instances_apart {w : SequenceServers} {requests : List (ObjectId × Request)}
    (hrun : Run step (fun w req _ ↦ w.addsOutside req = true) new requests w) :
    w.InstancesApart ∧ ∀ req r w', w.step req = some (r, w') →
      (w'.InstancesApart ↔ w.addsOutside req = true) := by
  have h : ∀ object, (w.sequence object).Unmixed := by
    refine hrun.invariant (fun w ↦ ∀ object, (w.sequence object).Unmixed) ?_ fun _ ↦ ⟨nofun, .nil⟩
    intro w req r w' h hok hstep object
    obtain ⟨hlasts, hapart⟩ := step_unmixed h hstep
    exact ⟨hlasts object, hapart.mpr hok object⟩
  exact ⟨fun object ↦ (h object).apart, fun req r w' hstep ↦ (step_unmixed h hstep).2⟩

/-- The request for an instance of the first pattern. -/
def addFirst (startAt stopAt : String) : Request :=
  Replica.request [(str "commandid", str "req_add_ptrn_inst"), (str "pattern_id", str "0"),
    (str "start_at", str startAt), (str "loop_length", str "4"), (str "stop_at", str stopAt)]

/-- The request to take such an instance out. -/
def dropFirst (startAt stopAt : String) : Request :=
  Replica.request [(str "commandid", str "req_del_ptrn_inst"), (str "pattern_id", str "0"),
    (str "start_at", str startAt), (str "loop_length", str "4"), (str "stop_at", str stopAt)]

/-- Two instances behind each other, with a gap. -/
theorem instances_apart_gap : ∃ w, Run step (fun w req _ ↦ w.addsOutside req = true) new
      [(⟨3, by decide⟩, Replica.addBass), (⟨3, by decide⟩, addFirst "0" "16"),
        (⟨3, by decide⟩, addFirst "20" "36")] w ∧
    (w.sequence ⟨3, by decide⟩).instanceList = [⟨0, 0, 4, 16⟩, ⟨0, 20, 4, 36⟩] ∧
    w.InstancesApart := by
  have hsome : (runAll step (fun w req _ ↦ w.addsOutside req) new
      [(⟨3, by decide⟩, Replica.addBass), (⟨3, by decide⟩, addFirst "0" "16"),
        (⟨3, by decide⟩, addFirst "20" "36")]).map (fun w ↦
      (w.sequence ⟨3, by decide⟩).instanceList) = some [⟨0, 0, 4, 16⟩, ⟨0, 20, 4, 36⟩] := by
    decide +kernel
  obtain ⟨w, hw, hlist⟩ := Option.map_eq_some_iff.mp hsome
  have hrun := Run.of_runAll hw
  exact ⟨w, hrun, hlist, (instances_apart hrun).1⟩

/-- An instance from 8 to 12 is added to a sequence with one from 0 to 16. -/
theorem added_inside : ¬ ∀ (w : SequenceServers) (requests : List (ObjectId × Request)),
    Run step (fun _ _ _ ↦ True) new requests w → w.InstancesApart := by
  intro hall
  have hsome : (runAll step (fun _ _ _ ↦ true) new
      [(⟨3, by decide⟩, Replica.addBass), (⟨3, by decide⟩, addFirst "0" "16"),
        (⟨3, by decide⟩, addFirst "8" "12")]).map (fun w ↦
      (w.sequence ⟨3, by decide⟩).instanceList) = some [⟨0, 0, 4, 16⟩, ⟨0, 8, 4, 12⟩] := by
    decide +kernel
  obtain ⟨w, hw, hlist⟩ := Option.map_eq_some_iff.mp hsome
  have hapart := hall w _ ((Run.of_runAll hw).mono fun _ _ _ _ ↦ trivial) ⟨3, by decide⟩
  rw [hlist] at hapart
  exact (List.rel_of_pairwise_cons hapart List.mem_cons_self) 8
    ⟨⟨by decide, by decide⟩, by decide, by decide⟩

end SequenceServers

/-! ## The patterns of instances -/

/-- Which patterns a sequence has after an operation. -/
theorem SequenceServer.mem_patterns_perform (srv : SequenceServer) (op : SequenceOp) (id : UInt32) :
    id ∈ (srv.perform op).sequence.patterns ↔
      match op with
      | .addPattern _ => id = srv.patternIdAllocator.getId.1 ∨ id ∈ srv.sequence.patterns
      | .request (.deletePattern deleted) => id ≠ deleted ∧ id ∈ srv.sequence.patterns
      | _ => id ∈ srv.sequence.patterns := by
  have hinsert : ∀ {key : UInt32} {ptrn : Pattern} (noteList : List Note),
      srv.sequence.patterns[key]? = some ptrn →
      (id ∈ srv.sequence.patterns.insert key { ptrn with noteList := noteList } ↔
        id ∈ srv.sequence.patterns) := by
    intro key ptrn noteList hptrn
    rw [Std.ExtTreeMap.mem_insert, Std.LawfulEqCmp.compare_eq_iff_eq]
    refine or_iff_right_of_imp ?_
    rintro rfl
    rw [Std.ExtTreeMap.mem_iff_isSome_getElem?, hptrn]
    rfl
  cases op with
  | addPattern newName =>
    show id ∈ srv.sequence.patterns.insert _ _ ↔ _
    rw [Std.ExtTreeMap.mem_insert, Std.LawfulEqCmp.compare_eq_iff_eq]
    exact or_congr_left eq_comm
  | request r =>
    cases r with
    | deletePattern deleted =>
      rw [perform_delete]
      split
      · show id ∈ srv.sequence.patterns.erase deleted ↔ _
        rw [Std.ExtTreeMap.mem_erase, ne_eq, Std.LawfulEqCmp.compare_eq_iff_eq]
        exact and_congr_left' (not_congr eq_comm)
      · next hmissing =>
        refine (and_iff_right_of_imp ?_).symm
        rintro hid rfl
        exact hmissing hid
    | insertPatternInSequence pin =>
      rw [perform_insert]
      show id ∈ (if _ then _ else _ : Sequence).patterns ↔ _
      split <;> rfl
    | deletePatternFromSequence pin => rfl
    | addNote key note =>
      rw [perform, Sequence.processAddNote]
      split
      · rfl
      · next ptrn hptrn => exact hinsert _ hptrn
    | deleteNote key note =>
      rw [perform, Sequence.processDeleteNote]
      split
      · rfl
      · next ptrn hptrn => exact hinsert _ hptrn

/-- The sequences with a record of which pattern is which: the patterns are numbered as they are
added, every id stands for the last one that got it in the sequence, and every instance is kept with
the one it was inserted for. The requests do not depend on it. -/
structure TrackedServers where
  servers : SequenceServers
  added : Nat
  pattern : ObjectId → UInt32 → Nat
  instances : ObjectId → List (PatternInstance × Nat)

namespace TrackedServers

/-- Nothing has been added. -/
def new : TrackedServers := ⟨.new, 0, fun _ _ ↦ 0, fun _ ↦ []⟩

/-- What the ids of a sequence stand for after an operation on it. -/
def patternAfter (w : TrackedServers) (object : ObjectId) : SequenceOp → UInt32 → Nat
  | .addPattern _ =>
    Function.update (w.pattern object) w.servers.patternIdAllocator.getId.1 w.added
  | _ => w.pattern object

/-- The recorded instances of a sequence after an operation on it. -/
def instancesAfter (w : TrackedServers) (object : ObjectId) :
    SequenceOp → List (PatternInstance × Nat)
  | .request (.insertPatternInSequence pin) =>
    if (w.servers.sequence object).accepts pin then
      LinkedList.insertElement (fun a b ↦ PatternInstance.lt a.1 b.1)
        (pin, w.pattern object pin.patternId) (w.instances object)
    else w.instances object
  | .request (.deletePatternFromSequence pin) =>
    LinkedList.dropElement (fun a b ↦ PatternInstance.eq a.1 b.1) (pin, 0) (w.instances object)
  | _ => w.instances object

/-- What an operation on one sequence leaves. -/
def perform (w : TrackedServers) (object : ObjectId) (op : SequenceOp) : TrackedServers where
  servers := w.servers.perform object op
  added := match op with
    | .addPattern _ => w.added + 1
    | _ => w.added
  pattern := Function.update w.pattern object (w.patternAfter object op)
  instances := Function.update w.instances object (w.instancesAfter object op)

/-- A request to one of the sequences. -/
def step (w : TrackedServers) (req : ObjectId × Request) :
    Option (Except Fault (Option Message) × TrackedServers) :=
  (w.servers.step req).map fun handled ↦
    (handled.1, { req.2.msg.sequenceOp.elim w (w.perform req.1) with servers := handled.2 })

theorem step_cases {w w' : TrackedServers} {req : ObjectId × Request}
    {r : Except Fault (Option Message)} (h : w.step req = some (r, w')) :
    w.servers.step req = some (r, w'.servers) ∧ ((req.2.msg.sequenceOp = none ∧ w' = w) ∨
      ∃ op, req.2.msg.sequenceOp = some op ∧ w' = w.perform req.1 op) := by
  obtain ⟨handled, hstep, heq⟩ := Option.map_eq_some_iff.mp h
  obtain ⟨rfl, rfl⟩ := Prod.mk.inj heq
  refine ⟨hstep, ?_⟩
  rcases SequenceServers.step_cases hstep with ⟨hop, hservers⟩ | ⟨op, hop, hservers⟩
  · exact .inl ⟨hop, by rw [hop, hservers, Option.elim_none]⟩
  · exact .inr ⟨op, hop, by rw [hop, hservers, Option.elim_some]; rfl⟩

/-- The instances of the record are those of the sequences, and the patterns that exist have been
added. -/
structure Recorded (w : TrackedServers) : Prop where
  instances : ∀ object, (w.instances object).map Prod.fst = (w.servers.sequence object).instanceList
  added : ∀ object, ∀ id ∈ (w.servers.sequence object).patterns, w.pattern object id < w.added

theorem map_instancesAfter {w : TrackedServers} {object : ObjectId}
    (h : (w.instances object).map Prod.fst = (w.servers.sequence object).instanceList)
    (op : SequenceOp) : (w.instancesAfter object op).map Prod.fst =
      (w.servers.sequence object).instancesAfter op := by
  cases op with
  | addPattern newName => exact h
  | request r =>
    cases r with
    | insertPatternInSequence pin =>
      rw [instancesAfter, Sequence.instancesAfter]
      split
      · rw [LinkedList.map_insertElement, h]
        rfl
      · exact h
    | deletePatternFromSequence pin =>
      rw [instancesAfter, LinkedList.map_dropElement, h]
      rfl
    | _ => exact h

theorem sequence_perform_of_ne (w : TrackedServers) {object j : ObjectId} (hj : j ≠ object)
    (op : SequenceOp) : (w.perform object op).servers.sequence j = w.servers.sequence j :=
  Function.update_of_ne hj ..

theorem mem_patterns_perform (w : TrackedServers) (object : ObjectId) (op : SequenceOp) :
    ((w.perform object op).servers.sequence object).patterns =
      ((w.servers.server object).perform op).sequence.patterns := by
  show (Function.update w.servers.sequence object _ object).patterns = _
  rw [Function.update_self]

/-- The number of an id of the sequence is one that has been given. -/
theorem Recorded.patternAfter_lt {w : TrackedServers} (h : w.Recorded) {object : ObjectId}
    {op : SequenceOp} {id : UInt32}
    (hid : id ∈ ((w.servers.server object).perform op).sequence.patterns) :
    w.patternAfter object op id < (w.perform object op).added := by
  rw [SequenceServer.mem_patterns_perform] at hid
  cases op with
  | addPattern newName =>
    show Function.update (w.pattern object) _ w.added id < w.added + 1
    by_cases heq : id = w.servers.patternIdAllocator.getId.1
    · rw [heq, Function.update_self]
      exact Nat.lt_succ_self _
    · rw [Function.update_of_ne heq]
      exact Nat.lt_succ_of_lt (h.added object id (hid.resolve_left heq))
  | request r =>
    cases r with
    | deletePattern deleted => exact h.added object id hid.2
    | _ => exact h.added object id hid

theorem Recorded.perform {w : TrackedServers} (h : w.Recorded) (object : ObjectId)
    (op : SequenceOp) : (w.perform object op).Recorded := by
  constructor
  · intro j
    show (Function.update w.instances object _ j).map Prod.fst = _
    by_cases hj : j = object
    · subst hj
      rw [Function.update_self, map_instancesAfter (h.instances j)]
      exact ((SequenceServers.instanceList_perform ..).trans (if_pos rfl)).symm
    · rw [Function.update_of_ne hj, sequence_perform_of_ne w hj, h.instances]
  · intro j id hid
    show Function.update w.pattern object _ j id < _
    by_cases hj : j = object
    · subst hj
      rw [mem_patterns_perform] at hid
      rw [Function.update_self]
      exact h.patternAfter_lt hid
    · rw [sequence_perform_of_ne w hj] at hid
      rw [Function.update_of_ne hj]
      refine Nat.lt_of_lt_of_le (h.added j id hid) ?_
      cases op with
      | addPattern newName => exact Nat.le_succ _
      | request r => exact Nat.le_refl _

theorem recorded_new : new.Recorded where
  instances := fun _ ↦ rfl
  added := fun _ _ hid ↦ absurd hid Std.ExtTreeMap.not_mem_empty

theorem Recorded.step {w w' : TrackedServers} (h : w.Recorded) {req : ObjectId × Request}
    {r : Except Fault (Option Message)} (hstep : w.step req = some (r, w')) : w'.Recorded := by
  rcases (step_cases hstep).2 with ⟨-, rfl⟩ | ⟨op, -, rfl⟩
  · exact h
  · exact h.perform req.1 op

/-- The instance has its pattern: the id is that of a pattern, the one it was inserted for. -/
def HasPattern (patterns : Std.ExtTreeMap UInt32 Pattern) (pattern : UInt32 → Nat)
    (entry : PatternInstance × Nat) : Prop :=
  entry.1.patternId ∈ patterns ∧ pattern entry.1.patternId = entry.2

/-- Every instance of every sequence has its pattern. -/
def OwnPatterns (w : TrackedServers) : Prop :=
  ∀ object, ∀ entry ∈ w.instances object,
    HasPattern (w.servers.sequence object).patterns (w.pattern object) entry

/-- Some instance of the sequence names the id. -/
def names (w : TrackedServers) (object : ObjectId) (id : UInt32) : Bool :=
  (w.servers.sequence object).instanceList.any fun pin ↦ pin.patternId = id

/-- The operation does not delete a pattern that an instance names, and it does not add one under
an id that an instance names. -/
def sparesNamed (w : TrackedServers) (object : ObjectId) : SequenceOp → Bool
  | .addPattern _ => !w.names object w.servers.patternIdAllocator.getId.1
  | .request (.deletePattern patternId) => !w.names object patternId
  | _ => true

theorem Recorded.not_names_iff {w : TrackedServers} (h : w.Recorded) {object : ObjectId}
    {id : UInt32} : (!w.names object id) = true ↔
      ∀ entry ∈ w.instances object, entry.1.patternId ≠ id := by
  rw [names, ← h.instances object, Bool.not_eq_true', List.any_eq_false, List.forall_mem_map]
  refine forall₂_congr fun entry _ ↦ ?_
  rw [decide_eq_true_eq]

/-- After an operation the instances of the sequence have their patterns exactly if it spares those
that are named. -/
theorem Recorded.hasPattern_perform {w : TrackedServers} (h : w.Recorded) (hown : w.OwnPatterns)
    (object : ObjectId) (op : SequenceOp) :
    (∀ entry ∈ w.instancesAfter object op,
      HasPattern ((w.servers.server object).perform op).sequence.patterns
        (w.patternAfter object op) entry) ↔ w.sparesNamed object op = true := by
  simp only [HasPattern, SequenceServer.mem_patterns_perform]
  cases op with
  | addPattern newName =>
    rw [sparesNamed, h.not_names_iff]
    simp only [instancesAfter, patternAfter]
    constructor
    · intro hall entry hentry heq
      -- the pattern under the id is the one that has just been added
      have hnew := (hall entry hentry).2
      rw [heq, Function.update_self] at hnew
      obtain ⟨hmem, hold⟩ := hown object entry hentry
      have hlt := h.added object _ hmem
      omega
    · intro hne entry hentry
      obtain ⟨hmem, hold⟩ := hown object entry hentry
      rw [Function.update_of_ne (hne entry hentry)]
      exact ⟨.inr hmem, hold⟩
  | request r =>
    cases r with
    | deletePattern deleted =>
      rw [sparesNamed, h.not_names_iff]
      simp only [instancesAfter, patternAfter]
      constructor
      · intro hall entry hentry
        exact (hall entry hentry).1.1
      · intro hne entry hentry
        obtain ⟨hmem, hold⟩ := hown object entry hentry
        exact ⟨⟨hne entry hentry, hmem⟩, hold⟩
    | insertPatternInSequence pin =>
      refine iff_of_true (fun entry hentry ↦ ?_) rfl
      simp only [instancesAfter] at hentry
      split at hentry
      · next haccepts =>
        rcases List.mem_cons.mp ((LinkedList.insertElement_perm ..).mem_iff.mp hentry) with
          rfl | hentry
        · exact ⟨(of_decide_eq_true haccepts).2.2.1, rfl⟩
        · exact hown object entry hentry
      · exact hown object entry hentry
    | deletePatternFromSequence pin =>
      refine iff_of_true (fun entry hentry ↦ hown object entry ?_) rfl
      exact (LinkedList.dropElement_sublist ..).mem hentry
    | addNote id note => exact iff_of_true (hown object) rfl
    | deleteNote id note => exact iff_of_true (hown object) rfl

/-- What the request asks for spares the patterns that instances name. -/
def spares (w : TrackedServers) (req : ObjectId × Request) : Bool :=
  req.2.msg.sequenceOp.all (w.sparesNamed req.1)

theorem Recorded.ownPatterns_step {w w' : TrackedServers} (h : w.Recorded) (hown : w.OwnPatterns)
    {req : ObjectId × Request} {r : Except Fault (Option Message)}
    (hstep : w.step req = some (r, w')) : w'.OwnPatterns ↔ w.spares req = true := by
  rcases (step_cases hstep).2 with ⟨hop, rfl⟩ | ⟨op, hop, rfl⟩
  · rw [spares, hop]
    exact iff_of_true hown rfl
  · rw [spares, hop, Option.all_some, ← h.hasPattern_perform hown]
    have hself : (w.perform req.1 op).pattern req.1 = w.patternAfter req.1 op :=
      Function.update_self ..
    have hinstances : (w.perform req.1 op).instances req.1 = w.instancesAfter req.1 op :=
      Function.update_self ..
    constructor
    · intro hall
      have hat := hall req.1
      rwa [hself, hinstances, mem_patterns_perform] at hat
    · intro hat j
      by_cases hj : j = req.1
      · rwa [hj, hself, hinstances, mem_patterns_perform]
      · have hother : (w.perform req.1 op).pattern j = w.pattern j := Function.update_of_ne hj ..
        have hkept : (w.perform req.1 op).instances j = w.instances j := Function.update_of_ne hj ..
        rw [hother, hkept, sequence_perform_of_ne w hj]
        exact hown j

theorem exists_step {w : TrackedServers} {v : SequenceServers} {req : ObjectId × Request}
    {r : Except Fault (Option Message)} (h : w.servers.step req = some (r, v)) :
    ∃ w', w.step req = some (r, w') ∧ w'.servers = v :=
  ⟨_, by rw [step, h, Option.map_some], rfl⟩

/-- The record follows every run of the sequences. -/
theorem exists_run {v : SequenceServers} {w : TrackedServers} {requests : List (ObjectId × Request)}
    (hrun : Run SequenceServers.step (fun _ _ _ ↦ True) w.servers requests v) :
    ∃ w', Run step (fun _ _ _ ↦ True) w requests w' ∧ w'.servers = v := by
  generalize hw : w.servers = u at hrun
  induction hrun generalizing w with
  | nil u => exact ⟨w, .nil w, hw⟩
  | cons hstep _ _ ih =>
    subst hw
    obtain ⟨w₁, hstep₁, hservers⟩ := exists_step hstep
    obtain ⟨w', hrun', hv⟩ := ih hservers
    exact ⟨w', .cons hstep₁ trivial hrun', hv⟩

/-- As long as there are fewer than 2 ^ 32 patterns, no instance names the id of the next one. -/
theorem sparesNamed_addPattern {w : TrackedServers} (h : w.Recorded) (hown : w.OwnPatterns)
    (hids : w.servers.Ids) (object : ObjectId) (newName : StdString) :
    w.sparesNamed object (.addPattern newName) = true := by
  rw [sparesNamed, h.not_names_iff]
  intro entry hentry heq
  refine hids.not_live_getId ⟨object, fun hnone ↦ ?_⟩
  have hmem := (hown object entry hentry).1
  rw [heq, Std.ExtTreeMap.mem_iff_isSome_getElem?, Option.map_eq_none_iff.mp hnone] at hmem
  cases hmem

/-- The record follows every run of requests. As long as the requests spare the patterns that
instances name, each instance names a pattern of its sequence, the one that it was inserted for; the
first request that does not spare one ends that. It is one that deletes a pattern: where there are
fewer than 2 ^ 32 patterns at a time, no new pattern has an id that an instance names. -/
theorem instances_own_patterns {requests : List (ObjectId × Request)} :
    (∀ v, Run SequenceServers.step (fun _ _ _ ↦ True) .new requests v →
      ∃ w, Run step (fun _ _ _ ↦ True) new requests w ∧ w.servers = v ∧
        ∀ object, (w.instances object).map Prod.fst = (v.sequence object).instanceList) ∧
    (∀ w, Run step (fun w req _ ↦ w.spares req = true) new requests w →
      w.OwnPatterns ∧ ∀ req r w', w.step req = some (r, w') →
        (w'.OwnPatterns ↔ w.spares req = true)) ∧
    ∀ w, Run step (fun w req _ ↦ w.spares req = true ∧
        ∀ r w', w.step req = some (r, w') → w'.servers.Spare) new requests w →
      ∀ object newName, w.sparesNamed object (.addPattern newName) = true := by
  have hboth : ∀ w, Run step (fun w req _ ↦ w.spares req = true) new requests w →
      w.Recorded ∧ w.OwnPatterns := by
    intro w hrun
    refine hrun.invariant (fun w ↦ w.Recorded ∧ w.OwnPatterns) ?_ ⟨recorded_new, nofun⟩
    rintro w req r w' ⟨h, hown⟩ hspares hstep
    exact ⟨h.step hstep, (h.ownPatterns_step hown hstep).mpr hspares⟩
  refine ⟨fun v hrun ↦ ?_, fun w hrun ↦ ?_, fun w hrun object newName ↦ ?_⟩
  · obtain ⟨w, hrun', rfl⟩ := @exists_run v new requests hrun
    have h : w.Recorded := hrun'.invariant Recorded (fun _ _ _ _ h _ ↦ h.step) recorded_new
    exact ⟨w, hrun', rfl, h.instances⟩
  · obtain ⟨h, hown⟩ := hboth w hrun
    exact ⟨hown, fun req r w' hstep ↦ h.ownPatterns_step hown hstep⟩
  · obtain ⟨h, hown⟩ := hboth w (hrun.mono fun _ _ _ ↦ And.left)
    have hids : w.servers.Ids := by
      refine hrun.invariant (fun w ↦ w.servers.Ids) ?_ SequenceServers.ids_new
      intro w req r w' hids hspare hstep
      have hspare' := hspare.2 r w' hstep
      rcases SequenceServers.step_cases (step_cases hstep).1 with ⟨-, heq⟩ | ⟨op, -, heq⟩
      · rwa [heq]
      · rw [heq] at hspare' ⊢
        exact hids.perform (.inl hspare')
    exact sparesNamed_addPattern h hown hids object newName

/-- The instance is deleted before its pattern, and the next instance is one of the new pattern. -/
theorem instances_own_patterns_reused : ∃ w, Run step (fun w req _ ↦ w.spares req = true) new
      [(⟨3, by decide⟩, Replica.addBass), (⟨3, by decide⟩, SequenceServers.addFirst "0" "16"),
        (⟨3, by decide⟩, SequenceServers.dropFirst "0" "16"),
        (⟨3, by decide⟩, SequenceServers.deleteFirst), (⟨3, by decide⟩, Replica.addBass),
        (⟨3, by decide⟩, SequenceServers.addFirst "8" "24")] w ∧
    w.instances ⟨3, by decide⟩ = [(⟨0, 8, 4, 24⟩, 1)] ∧ w.OwnPatterns := by
  have hsome : (runAll step (fun w req _ ↦ w.spares req) new
      [(⟨3, by decide⟩, Replica.addBass), (⟨3, by decide⟩, SequenceServers.addFirst "0" "16"),
        (⟨3, by decide⟩, SequenceServers.dropFirst "0" "16"),
        (⟨3, by decide⟩, SequenceServers.deleteFirst), (⟨3, by decide⟩, Replica.addBass),
        (⟨3, by decide⟩, SequenceServers.addFirst "8" "24")]).map
      (fun w ↦ w.instances ⟨3, by decide⟩) = some [(⟨0, 8, 4, 24⟩, 1)] := by
    decide +kernel
  obtain ⟨w, hw, hinstances⟩ := Option.map_eq_some_iff.mp hsome
  have hrun := Run.of_runAll hw
  exact ⟨w, hrun, hinstances, (instances_own_patterns.2.1 w hrun).1⟩

/-- A pattern is added under the id of a deleted one that an instance names. -/
theorem pattern_replaced : ¬ ∀ (w : TrackedServers) (requests : List (ObjectId × Request)),
    Run step (fun _ _ _ ↦ True) new requests w → w.OwnPatterns := by
  intro hall
  have hsome : (runAll step (fun _ _ _ ↦ true) new
      [(⟨3, by decide⟩, Replica.addBass), (⟨3, by decide⟩, SequenceServers.addFirst "0" "16"),
        (⟨3, by decide⟩, SequenceServers.deleteFirst), (⟨3, by decide⟩, Replica.addBass)]).map
      (fun w ↦ (w.instances ⟨3, by decide⟩, w.pattern ⟨3, by decide⟩ 0)) =
        some ([(⟨0, 0, 4, 16⟩, 0)], 1) := by
    decide +kernel
  obtain ⟨w, hw, hinstances⟩ := Option.map_eq_some_iff.mp hsome
  obtain ⟨hentries, hpattern⟩ := Prod.mk.inj hinstances
  have hown := hall w _ ((Run.of_runAll hw).mono fun _ _ _ _ ↦ trivial) ⟨3, by decide⟩
  rw [hentries] at hown
  have hlast := (hown _ List.mem_cons_self).2
  rw [hpattern] at hlast
  cases hlast

end TrackedServers

end Vuknob
