import Mathlib.Data.List.InsertIdx
import Mathlib.Data.List.Nodup
import Vuknob.Base.CInt
import Vuknob.Library.Runs

/-!
# The loops of a sequencer

`loop_store` and `loop_sequence` of `MachineSequencer`, `src_jni/machine_sequencer.hh:305–311`: an
array of pointers to loops, and for every position in the sequence the id of a loop, which is its
place in the array. A loop is known by the number of loops that were made before it. Allocating
memory does not fail.
-/

namespace Vuknob

open Library

/-- `NOTE_NOT_SET`, `src_jni/machine_sequencer.hh:57`. -/
def noteNotSet : Int := -1

/-- `MACHINE_SEQUENCER_INITIAL_SEQUENCE_LENGTH`, `src_jni/machine_sequencer.hh:61`. -/
def machineSequencerInitialSequenceLength : Nat := 16

/-- The members of `MachineSequencer` that hold its loops; `loopStore` has `loop_store_size` entries,
`loopSequence` has `loop_sequence_length`. `sequenceLength` is static, and `made` counts loops. -/
structure LoopStore where
  loopStore : List (Option Nat)
  lastFreeLoopStorePosition : Int
  loopSequence : List Int
  sequenceLength : Int
  made : Nat

/-- How an operation ends. -/
inductive LoopStoreResult
  | returned
  | added (loopId : Nat)
  | parameterOutOfSpec
  | noFreeLoopsAvailable
  deriving DecidableEq

/-- The ids of the loops in a project file, and the entries of the sequence with position and id,
where they are given. -/
structure LoopsXml where
  loops : List (Option Int)
  entries : List (Option Int × Option Int)

namespace LoopStore

/-- The loop with an id; there is none where the pointer is null or outside of the array. -/
def loop (s : LoopStore) (k : Nat) : Option Nat := s.loopStore[k]?.join

/-- `get_nr_of_loops`, `src_jni/machine_sequencer.cc:884–886`. -/
def getNrOfLoops (s : LoopStore) : Int := s.lastFreeLoopStorePosition

/-- `refresh_length`, `src_jni/machine_sequencer.cc:1423–1450`. -/
def refreshLength (s : LoopStore) : LoopStore :=
  { s with loopSequence := s.loopSequence ++
      List.replicate (s.sequenceLength.toNat - s.loopSequence.length) noteNotSet }

/-- `set_sequence_length`, `src_jni/machine_sequencer.cc:1638–1650`, as far as one sequencer is
concerned. -/
def setSequenceLength (newv : Int) (s : LoopStore) : LoopStore :=
  refreshLength { s with sequenceLength := newv }

/-- The sequence reaches beyond a position, `src_jni/machine_sequencer.cc:546–553`. -/
def reach (position : Nat) (s : LoopStore) : Option LoopStore :=
  if position < s.loopSequence.length then some s
  else (int (position + 16)).map fun newv ↦ s.setSequenceLength newv

/-- `internal_set_loop_id_at`, `src_jni/machine_sequencer.cc:543–562`. -/
def internalSetLoopIdAt (position loopId : Int) (s : LoopStore) :
    Option (LoopStoreResult × LoopStore) :=
  if position < 0 then some (.parameterOutOfSpec, s)
  else
    (s.reach position.toNat).map fun s ↦
      if loopId ≠ noteNotSet ∧ (loopId < 0 ∨ s.loop loopId.toNat = none) then
        (.parameterOutOfSpec, s)
      else (.returned, { s with loopSequence := s.loopSequence.set position.toNat loopId })

/-- `double_loop_store`, `src_jni/machine_sequencer.cc:1404–1421`. -/
def doubleLoopStore (store : List (Option Nat)) : List (Option Nat) :=
  store ++ List.replicate store.length none

/-- `internal_add_new_loop`, `src_jni/machine_sequencer.cc:564–590`. -/
def internalAddNewLoop (s : LoopStore) : LoopStoreResult × LoopStore :=
  if s.lastFreeLoopStorePosition = 100 then (.noFreeLoopsAvailable, s)
  else
    let k := s.loopStore.idxOf none
    let store := if k < s.loopStore.length then s.loopStore else doubleLoopStore s.loopStore
    (.added k, { s with
      loopStore := store.set k (some s.made), lastFreeLoopStorePosition := k + 1
      made := s.made + 1 })

/-- What `delete_loop` does to an entry of the sequence, `src_jni/machine_sequencer.cc:929–933`. -/
def renumber (id v : Int) : Int :=
  let v := if v = id then noteNotSet else v
  if v > id then v - 1 else v

/-- The second loop of `delete_loop`, `src_jni/machine_sequencer.cc:936–938`. -/
def shiftDown (id : Nat) (store : List (Option Nat)) : List (Option Nat) :=
  (List.range' id (store.length - 1 - id)).foldl
    (fun store k ↦ store.set k store[k + 1]?.join) store

/-- `delete_loop`, `src_jni/machine_sequencer.cc:914–943`; a negative id is an index outside of the
array. -/
def deleteLoop (id : Int) (s : LoopStore) : Option LoopStore :=
  if 0 ≤ id then
    some { s with
      loopSequence := s.loopSequence.map (renumber id)
      loopStore := shiftDown id.toNat s.loopStore
      lastFreeLoopStorePosition := s.lastFreeLoopStorePosition - 1 }
  else none

/-- `prep_empty_loop_sequence`, `src_jni/machine_sequencer.cc:592–610`. -/
def prepEmptyLoopSequence (s : LoopStore) : LoopStore :=
  { s with loopSequence := List.replicate s.sequenceLength.toNat noteNotSet }

/-- An empty store, `src_jni/machine_sequencer.cc:1277–1281,1391–1396`. -/
def allocated (size : Nat) (sequenceLength : Int) (made : Nat) : LoopStore :=
  ⟨List.replicate size none, 0, [], sequenceLength, made⟩

/-- `MachineSequencer::MachineSequencer`, `src_jni/machine_sequencer.cc:1391–1401`. -/
def new (sequenceLength : Int) : LoopStore :=
  (allocated machineSequencerInitialSequenceLength sequenceLength
    0).prepEmptyLoopSequence.internalAddNewLoop.2

/-- `get_loops_xml` and `get_loop_sequence_xml`, `src_jni/machine_sequencer.cc:612–634`, less what is
in the loops. -/
def getXml (s : LoopStore) : LoopsXml where
  loops := ((List.range s.loopStore.length).filter fun k ↦ (s.loop k).isSome).map fun k : Nat ↦
    some (k : Int)
  entries := (s.loopSequence.zipIdx.filter fun e ↦ e.1 ≠ noteNotSet).map fun e ↦
    (some (e.2 : Int), some e.1)

/-- A loop of a project file, `src_jni/machine_sequencer.cc:1291–1296`. -/
def readLoop (s : LoopStore) (loopId : Int) : Option LoopStore :=
  if loopId = -1 then some s
  else if 0 ≤ loopId ∧ loopId < s.loopStore.length then
    some { s with
      loopStore := s.loopStore.set loopId.toNat (some s.made)
      lastFreeLoopStorePosition := max s.lastFreeLoopStorePosition loopId
      made := s.made + 1 }
  else none

/-- An entry of the sequence of a project file, `src_jni/machine_sequencer.cc:1319–1327`; where it is
refused, no sequencer is made. -/
def readEntry (s : LoopStore) (entry : Option Int × Option Int) : Option LoopStore :=
  let pos := entry.1.getD (-1)
  let id := entry.2.getD (-1)
  if pos ≠ -1 ∧ id ≠ -1 then
    match s.internalSetLoopIdAt pos id with
    | some (.returned, s) => some s
    | _ => none
  else some s

/-- The size of the store for the greatest id, `src_jni/machine_sequencer.cc:1275–1276`. -/
def storeSize (maxLoopId : Int) : Nat :=
  if machineSequencerInitialSequenceLength > maxLoopId then machineSequencerInitialSequenceLength
  else maxLoopId.toNat

/-- `MachineSequencer::MachineSequencer`, `src_jni/machine_sequencer.cc:1257–1329`; loops are made
from the number `made` on. -/
def fromXml (x : LoopsXml) (sequenceLength : Int) (made : Nat) : Option LoopStore := do
  let ids := x.loops.map fun id ↦ id.getD (-1)
  let size := storeSize (ids.foldl max (-1))
  let s ← ids.foldlM readLoop (allocated size sequenceLength made)
  let s := prepEmptyLoopSequence
    { s with lastFreeLoopStorePosition := s.lastFreeLoopStorePosition + 1 }
  x.entries.foldlM readEntry s

end LoopStore

/-- What may be done with the loops of a sequencer. `setSequenceLength` comes from another sequencer;
`reload` saves the project and loads it in a program with the given `sequence_length`. -/
inductive LoopStoreOp
  | addNewLoop
  | deleteLoop (id : Int)
  | setLoopIdAt (position loopId : Int)
  | setSequenceLength (newv : Int)
  | reload (sequenceLength : Int)

/-- One operation on the loops of a sequencer. -/
def LoopStore.step (s : LoopStore) : LoopStoreOp → Option (LoopStoreResult × LoopStore)
  | .addNewLoop => some s.internalAddNewLoop
  | .deleteLoop id => (s.deleteLoop id).map fun s ↦ (.returned, s)
  | .setLoopIdAt position loopId => s.internalSetLoopIdAt position loopId
  | .setSequenceLength newv => some (.returned, s.setSequenceLength newv)
  | .reload sequenceLength => (fromXml s.getXml sequenceLength s.made).map fun s ↦ (.returned, s)

namespace LoopStore

/-! ### The shape of the store -/

/-- There is a loop for exactly the ids below the number of loops, no loop has two ids, there are not
more than 100, and the sequence refers to them only. -/
structure Valid (s : LoopStore) : Prop where
  filled : ∀ k : Nat, s.loop k ≠ none ↔ k < s.getNrOfLoops
  distinct : ∀ j k, s.loop j ≠ none → s.loop j = s.loop k → j = k
  atMost : s.getNrOfLoops ≤ 100
  sequence : ∀ v ∈ s.loopSequence, v = noteNotSet ∨ 0 ≤ v ∧ v < s.getNrOfLoops

/-- The loop that is played at a position. -/
def loopAt (s : LoopStore) (position : Nat) : Option Nat :=
  s.loopSequence[position]?.bind fun v ↦ if 0 ≤ v then s.loop v.toNat else none

/-- From the one store to the other, the loop with an id is removed: the loops behind it move down,
and every position of the sequence has the loop that it had, unless it had the one that is removed. -/
structure Removed (id : Int) (s s' : LoopStore) : Prop where
  count : s'.getNrOfLoops = s.getNrOfLoops - 1
  store : ∀ k : Nat, s'.loop k = s.loop (if k < id then k else k + 1)
  positions : s'.loopSequence.length = s.loopSequence.length
  sequence : ∀ position, s'.loopAt position =
    if s.loopAt position = s.loop id.toNat then none else s.loopAt position

/-- The store holds some loops, and then a number of null pointers. -/
structure Stored (s : LoopStore) (loops : List Nat) (free : Nat) : Prop where
  store : s.loopStore = loops.map some ++ List.replicate free none
  count : s.lastFreeLoopStorePosition = loops.length
  nodup : loops.Nodup
  made : ∀ a ∈ loops, a < s.made
  size : 0 < loops.length + free
  atMost : loops.length ≤ 100
  sequence : ∀ v ∈ s.loopSequence, v = noteNotSet ∨ 0 ≤ v ∧ v < loops.length

theorem loop_of_store {s : LoopStore} {loops : List Nat} {free : Nat}
    (h : s.loopStore = loops.map some ++ List.replicate free none) (k : Nat) :
    s.loop k = loops[k]? := by
  rw [loop, h]
  by_cases hk : k < loops.length
  · rw [List.getElem?_append_left (by rwa [List.length_map]), List.getElem?_map,
      List.getElem?_eq_getElem hk]
    rfl
  · rw [List.getElem?_append_right (by rw [List.length_map]; omega), List.getElem?_replicate,
      List.getElem?_eq_none (by omega)]
    split <;> rfl

theorem Stored.loop_eq {s : LoopStore} {loops : List Nat} {free : Nat} (h : s.Stored loops free)
    (k : Nat) : s.loop k = loops[k]? := loop_of_store h.store k

theorem Stored.getNrOfLoops_eq {s : LoopStore} {loops : List Nat} {free : Nat}
    (h : s.Stored loops free) : s.getNrOfLoops = loops.length := h.count

theorem Stored.length_store {s : LoopStore} {loops : List Nat} {free : Nat}
    (h : s.Stored loops free) : s.loopStore.length = loops.length + free := by
  rw [h.store, List.length_append, List.length_map, List.length_replicate]

theorem Stored.valid {s : LoopStore} {loops : List Nat} {free : Nat} (h : s.Stored loops free) :
    s.Valid := by
  refine ⟨fun k ↦ ?_, fun j k hj hjk ↦ ?_, ?_, ?_⟩
  · rw [h.loop_eq, h.getNrOfLoops_eq, ne_eq, List.getElem?_eq_none_iff]
    omega
  · rw [h.loop_eq, ne_eq, List.getElem?_eq_none_iff, Nat.not_le] at hj
    rw [h.loop_eq, h.loop_eq] at hjk
    exact (List.getElem?_inj hj h.nodup).mp hjk
  · have hle := h.atMost
    rw [h.getNrOfLoops_eq]
    omega
  · rw [h.getNrOfLoops_eq]
    exact h.sequence

/-! ### Adding and setting -/

theorem idxOf_none (loops : List Nat) (free : Nat) :
    (loops.map some ++ List.replicate free none).idxOf none = loops.length := by
  have hnone : none ∉ loops.map some := by simp
  rw [List.idxOf_append_of_notMem hnone, List.length_map]
  cases free with
  | zero => rfl
  | succ free => rw [List.replicate_succ, List.idxOf_cons_self, Nat.add_zero]

theorem set_first_none (loops : List Nat) (a free : Nat) :
    (loops.map some ++ List.replicate (free + 1) none).set loops.length (some a) =
      (loops ++ [a]).map some ++ List.replicate free none := by
  rw [List.set_append_right _ _ (Nat.le_of_eq (List.length_map _)), List.length_map, Nat.sub_self,
    List.replicate_succ, List.set_cons_zero, List.map_append, List.append_assoc]
  rfl

/-- A new loop goes into the first entry that is null, in a store of twice the size if there is
none. -/
theorem Stored.internalAddNewLoop {s : LoopStore} {loops : List Nat} {free : Nat}
    (h : s.Stored loops free) :
    ∃ loops' free', s.internalAddNewLoop.2.Stored loops' free' := by
  rw [LoopStore.internalAddNewLoop]
  split
  · exact ⟨loops, free, h⟩
  · next hfull =>
    have hk : s.loopStore.idxOf none = loops.length := by rw [h.store, idxOf_none]
    obtain ⟨free', hfree'⟩ : ∃ free', (if s.loopStore.idxOf none < s.loopStore.length then
        s.loopStore else doubleLoopStore s.loopStore) =
          loops.map some ++ List.replicate (free' + 1) none := by
      have hsize := h.size
      rw [hk, h.length_store]
      cases free with
      | zero =>
        rw [if_neg (by omega), doubleLoopStore, h.length_store, h.store]
        obtain ⟨n, hn⟩ : ∃ n, loops.length + 0 = n + 1 := ⟨loops.length - 1, by omega⟩
        exact ⟨n, by rw [hn, List.replicate_zero, List.append_nil]⟩
      | succ free =>
        rw [if_pos (by omega)]
        exact ⟨free, h.store⟩
    refine ⟨loops ++ [s.made], free', ⟨?_, ?_, ?_, ?_, ?_, ?_, ?_⟩⟩
    · show (if _ then _ else _ : List (Option Nat)).set _ _ = _
      rw [hfree', hk, set_first_none]
    · show ((s.loopStore.idxOf none : Nat) : Int) + 1 = _
      rw [hk, List.length_append]
      rfl
    · refine List.nodup_append.mpr ⟨h.nodup, List.nodup_singleton _, fun a ha b hb ↦ ?_⟩
      rw [List.mem_singleton.mp hb]
      exact Nat.ne_of_lt (h.made a ha)
    · intro a ha
      rcases List.mem_append.mp ha with ha | ha
      · exact Nat.lt_succ_of_lt (h.made a ha)
      · rw [List.mem_singleton.mp ha]
        exact Nat.lt_succ_self _
    · rw [List.length_append, List.length_singleton]
      omega
    · have hle := h.atMost
      have hcount := h.count
      rw [List.length_append, List.length_singleton]
      omega
    · intro v hv
      refine (h.sequence v hv).imp id fun hv ↦ ⟨hv.1, ?_⟩
      rw [List.length_append, List.length_singleton]
      omega

theorem Stored.setSequenceLength {s : LoopStore} {loops : List Nat} {free : Nat}
    (h : s.Stored loops free) (newv : Int) : (s.setSequenceLength newv).Stored loops free := by
  refine ⟨h.store, h.count, h.nodup, h.made, h.size, h.atMost, fun v hv ↦ ?_⟩
  rcases List.mem_append.mp hv with hv | hv
  · exact h.sequence v hv
  · exact .inl (List.eq_of_mem_replicate hv)

theorem Stored.reach {s s' : LoopStore} {loops : List Nat} {free : Nat} (h : s.Stored loops free)
    {position : Nat} (hreach : s.reach position = some s') : s'.Stored loops free := by
  rw [LoopStore.reach] at hreach
  split at hreach
  · obtain rfl := Option.some.inj hreach
    exact h
  · obtain ⟨newv, -, rfl⟩ := Option.map_eq_some_iff.mp hreach
    exact h.setSequenceLength newv

/-- An id is set only where there is a loop. -/
theorem Stored.internalSetLoopIdAt {s s' : LoopStore} {loops : List Nat} {free : Nat}
    (h : s.Stored loops free) {position loopId : Int} {r : LoopStoreResult}
    (hset : s.internalSetLoopIdAt position loopId = some (r, s')) : s'.Stored loops free := by
  rw [LoopStore.internalSetLoopIdAt] at hset
  split at hset
  · obtain ⟨-, rfl⟩ := Prod.mk.inj (Option.some.inj hset)
    exact h
  · obtain ⟨s₁, hreach, hset⟩ := Option.map_eq_some_iff.mp hset
    have h₁ := h.reach hreach
    split at hset
    · obtain ⟨-, rfl⟩ := Prod.mk.inj hset
      exact h₁
    · next hid =>
      obtain ⟨-, rfl⟩ := Prod.mk.inj hset
      refine ⟨h₁.store, h₁.count, h₁.nodup, h₁.made, h₁.size, h₁.atMost, fun v hv ↦ ?_⟩
      rcases List.mem_or_eq_of_mem_set hv with hv | rfl
      · exact h₁.sequence v hv
      · rw [h₁.loop_eq, List.getElem?_eq_none_iff] at hid
        by_cases hnot : v = noteNotSet
        · exact .inl hnot
        · have hvalid : ¬ (v < 0 ∨ loops.length ≤ v.toNat) := fun hv ↦ hid ⟨hnot, hv⟩
          exact .inr ⟨by omega, by omega⟩

/-! ### Deleting -/

/-- The loop moves everything behind the id down by one entry; the last entry stays. -/
theorem foldl_shift (front back : List (Option Nat)) (x : Option Nat) :
    (List.range' front.length back.length).foldl (fun store k ↦ store.set k store[k + 1]?.join)
      (front ++ x :: back) = front ++ back ++ [back.getLastD x] := by
  induction back generalizing front x with
  | nil => rw [List.append_nil]; rfl
  | cons y back ih =>
    have hread : (front ++ x :: y :: back)[front.length + 1]?.join = y := by
      rw [List.getElem?_append_right (by omega), Nat.add_sub_cancel_left]
      rfl
    have hset : (front ++ x :: y :: back).set front.length y = (front ++ [y]) ++ y :: back := by
      rw [List.set_append_right _ _ (Nat.le_refl _), Nat.sub_self, List.set_cons_zero,
        List.append_assoc]
      rfl
    have hlength : (front ++ [y]).length = front.length + 1 := List.length_append
    rw [List.length_cons, List.range'_succ, List.foldl_cons, hread, hset, ← hlength, ih,
      List.getLastD_cons, List.append_assoc front]
    rfl

theorem shiftDown_eq {store : List (Option Nat)} {id : Nat} (hid : id < store.length) :
    shiftDown id store = store.eraseIdx id ++ [store.getLast?.join] := by
  obtain ⟨front, x, back, rfl, rfl⟩ : ∃ front x back,
      store = front ++ x :: back ∧ front.length = id := by
    refine ⟨store.take id, store[id], store.drop (id + 1), ?_, ?_⟩
    · rw [← List.drop_eq_getElem_cons hid, List.take_append_drop]
    · rw [List.length_take]
      omega
  have hcount : (front ++ x :: back).length - 1 - front.length = back.length := by
    rw [List.length_append, List.length_cons]
    omega
  have herase : (front ++ x :: back).eraseIdx front.length = front ++ back := by
    rw [List.eraseIdx_append_of_length_le (Nat.le_refl _), Nat.sub_self, List.eraseIdx_cons_zero]
  have hlast : (front ++ x :: back).getLast?.join = back.getLastD x := by
    rw [List.getLast?_append, List.getLast?_cons, List.getLastD_eq_getLast?]
    rfl
  rw [shiftDown, hcount, foldl_shift, herase, hlast]

/-- Every entry of the sequence refers to the loop that it referred to, or to none if it was the one
that is deleted. -/
theorem renumber_spec {id v : Int} {n : Nat} (hid : 0 ≤ id ∧ id < n)
    (hv : v = noteNotSet ∨ 0 ≤ v ∧ v < n) :
    (renumber id v = noteNotSet ∨ 0 ≤ renumber id v ∧ renumber id v < (n - 1 : Nat)) ∧
      (renumber id v = noteNotSet ↔ v = noteNotSet ∨ v = id) ∧
      (v < id → renumber id v = v) ∧ (id < v → renumber id v = v - 1) := by
  unfold renumber noteNotSet at *
  dsimp only
  split <;> split <;> omega

/-- The store after a loop is deleted, if its last entry is null. -/
theorem Stored.deleteLoop {s s' : LoopStore} {loops : List Nat} {free : Nat}
    (h : s.Stored loops (free + 1)) {id : Int} (hid : 0 ≤ id ∧ id < loops.length)
    (hdelete : s.deleteLoop id = some s') : s'.Stored (loops.eraseIdx id.toNat) (free + 2) := by
  rw [LoopStore.deleteLoop, if_pos hid.1] at hdelete
  obtain rfl := Option.some.inj hdelete
  have hlt : id.toNat < loops.length := by omega
  have hlength : (loops.eraseIdx id.toNat).length = loops.length - 1 :=
    List.length_eraseIdx_of_lt hlt
  have hsub : (loops.eraseIdx id.toNat).Sublist loops := List.eraseIdx_sublist ..
  refine ⟨?_, ?_, h.nodup.sublist hsub, fun a ha ↦ h.made a (hsub.subset ha), by omega, ?_, ?_⟩
  · have hlast : s.loopStore.getLast?.join = none := by
      rw [h.store, List.replicate_succ', ← List.append_assoc, List.getLast?_concat]
      rfl
    show shiftDown id.toNat s.loopStore = _
    rw [shiftDown_eq (by rw [h.length_store]; omega), hlast, h.store,
      List.eraseIdx_append_of_lt_length (by rwa [List.length_map]), List.eraseIdx_map,
      List.append_assoc, ← List.replicate_succ']
  · show s.lastFreeLoopStorePosition - 1 = _
    rw [h.count, hlength]
    omega
  · have hle := h.atMost
    omega
  · intro v hv
    obtain ⟨u, hu, rfl⟩ := List.mem_map.mp hv
    rw [hlength]
    exact (renumber_spec hid (h.sequence u hu)).1

theorem Stored.removed {s s' : LoopStore} {loops : List Nat} {free : Nat}
    (h : s.Stored loops (free + 1)) {id : Int} (hid : 0 ≤ id ∧ id < loops.length)
    (hdelete : s.deleteLoop id = some s') : Removed id s s' := by
  have h' := h.deleteLoop hid hdelete
  have hlt : id.toNat < loops.length := by omega
  rw [LoopStore.deleteLoop, if_pos hid.1] at hdelete
  have hseq : s'.loopSequence = s.loopSequence.map (renumber id) := by
    rw [← Option.some.inj hdelete]
  have hloop : ∀ k, s'.loop k = if k < id.toNat then loops[k]? else loops[k + 1]? := by
    intro k
    rw [h'.loop_eq, List.getElem?_eraseIdx]
  refine ⟨?_, fun k ↦ ?_, ?_, fun position ↦ ?_⟩
  · rw [h'.getNrOfLoops_eq, h.getNrOfLoops_eq, List.length_eraseIdx_of_lt hlt]
    omega
  · rw [hloop, h.loop_eq]
    by_cases hk : k < id.toNat
    · rw [if_pos hk, if_pos (by omega)]
    · rw [if_neg hk, if_neg (by omega)]
  · rw [hseq, List.length_map]
  · rw [loopAt, loopAt, hseq, List.getElem?_map]
    cases hv : s.loopSequence[position]? with
    | none => exact (ite_self _).symm
    | some v =>
      obtain ⟨-, hnone, hbelow, habove⟩ :=
        renumber_spec hid (h.sequence v (List.mem_of_getElem? hv))
      have hvalid := h.sequence v (List.mem_of_getElem? hv)
      show (if 0 ≤ renumber id v then s'.loop (renumber id v).toNat else none) =
        if (if 0 ≤ v then s.loop v.toNat else none) = s.loop id.toNat then none
        else if 0 ≤ v then s.loop v.toNat else none
      rcases hvalid with hnot | ⟨hv0, hvn⟩
      · rw [hnone.mpr (.inl hnot), hnot]
        exact (ite_self _).symm
      · rw [if_pos hv0, h.loop_eq, h.loop_eq]
        rcases Int.lt_trichotomy v id with hlow | rfl | hhigh
        · rw [hbelow hlow, if_pos hv0, hloop, if_pos (by omega), if_neg]
          intro heq
          have hsame := (List.getElem?_inj (by omega) h.nodup).mp heq
          omega
        · rw [hnone.mpr (.inr rfl), if_pos rfl]
          rfl
        · have hindex : (v - 1).toNat + 1 = v.toNat := by omega
          rw [habove hhigh, if_pos (by omega), hloop, if_neg (by omega), hindex, if_neg]
          intro heq
          have hsame := (List.getElem?_inj (by omega) h.nodup).mp heq
          omega

/-- In a store without a null pointer, deleting leaves the last entry where it was. -/
theorem Stored.deleteLoop_full {s s' : LoopStore} {loops : List Nat} (h : s.Stored loops 0)
    {id : Int} (hid : 0 ≤ id ∧ id < loops.length) (hdelete : s.deleteLoop id = some s') :
    ¬ s'.Valid := by
  rw [LoopStore.deleteLoop, if_pos hid.1] at hdelete
  obtain rfl := Option.some.inj hdelete
  have hlt : id.toNat < loops.length := by omega
  have hlength : s.loopStore.length = loops.length := h.length_store
  have hstore : shiftDown id.toNat s.loopStore =
      s.loopStore.eraseIdx id.toNat ++ [s.loopStore.getLast?.join] :=
    shiftDown_eq (by omega)
  have herase : (s.loopStore.eraseIdx id.toNat).length = loops.length - 1 := by
    rw [List.length_eraseIdx_of_lt (by omega), hlength]
  intro hvalid
  have hlast := (hvalid.filled (loops.length - 1)).mp ?_
  · rw [getNrOfLoops] at hlast
    have hcount := h.count
    dsimp only at hlast
    omega
  · show (shiftDown id.toNat s.loopStore)[loops.length - 1]?.join ≠ none
    rw [hstore, ← herase, List.getElem?_concat_length, h.store, List.replicate_zero,
      List.append_nil, List.getLast?_map]
    cases hl : loops.getLast? with
    | none => rw [List.getLast?_eq_none_iff.mp hl] at hlt; exact absurd hlt (Nat.not_lt_zero _)
    | some a => nofun

/-! ### Saving and loading -/

/-- What is saved has the ids from 0 on. -/
theorem Stored.ids {s : LoopStore} {loops : List Nat} {free : Nat} (h : s.Stored loops free) :
    (s.getXml.loops.map fun id ↦ id.getD (-1)) =
      (List.range loops.length).map fun k : Nat ↦ (k : Int) := by
  have hsome : ∀ k, (s.loop k).isSome = true ↔ k < loops.length := by
    intro k
    simp [h.loop_eq]
  have hkept : (List.range loops.length).filter (fun k ↦ (s.loop k).isSome) =
      List.range loops.length :=
    List.filter_eq_self.mpr fun k hk ↦ (hsome k).mpr (List.mem_range.mp hk)
  have hdropped : ((List.range free).map (loops.length + ·)).filter
      (fun k ↦ (s.loop k).isSome) = [] := by
    refine List.filter_eq_nil_iff.mpr fun k hk ↦ ?_
    obtain ⟨j, -, rfl⟩ := List.mem_map.mp hk
    rw [hsome]
    omega
  rw [getXml, List.map_map, h.length_store, List.range_add, List.filter_append, hkept, hdropped,
    List.append_nil]
  rfl

theorem foldl_max_ids (n : Nat) :
    ((List.range n).map fun k : Nat ↦ (k : Int)).foldl max (-1) = n - 1 := by
  induction n with
  | zero => rfl
  | succ n ih =>
    rw [List.range_succ, List.map_append, List.foldl_append, ih]
    show max ((n : Int) - 1) n = _
    omega

/-- Loops with the ids from 0 on are read into a store that is large enough for them. -/
theorem readLoops (sequenceLength : Int) (made : Nat) {n size : Nat} (hn : n ≤ size) :
    ((List.range n).map fun k : Nat ↦ (k : Int)).foldlM readLoop (allocated size sequenceLength made) =
      some ⟨(List.range' made n).map some ++ List.replicate (size - n) none, (n - 1 : Nat), [],
        sequenceLength, made + n⟩ := by
  induction n with
  | zero => rfl
  | succ n ih =>
    have hmade : (List.range' made n).length = n := List.length_range'
    have hset := set_first_none (List.range' made n) (made + n) (size - n - 1)
    rw [hmade, show size - n - 1 + 1 = size - n by omega] at hset
    have hlength : n + (size - n) = size := by omega
    rw [List.range_succ, List.map_append, List.foldlM_append, ih (by omega)]
    show (readLoop _ (n : Int)).bind some = _
    rw [Option.bind_fun_some, readLoop, if_neg (by omega), if_pos, List.range'_concat]
    · simp only [Int.toNat_natCast, hset, Nat.one_mul, Option.some.injEq, LoopStore.mk.injEq]
      refine ⟨by rw [Nat.sub_sub], ?_, trivial, trivial, by omega⟩
      omega
    · simp only [List.length_append, List.length_map, List.length_replicate, hmade]
      omega

/-- The last of them does not fit into a store that is too small by one. -/
theorem readLoops_outside (sequenceLength : Int) (made size : Nat) :
    ((List.range (size + 1)).map fun k : Nat ↦ (k : Int)).foldlM readLoop
      (allocated size sequenceLength made) = none := by
  rw [List.range_succ, List.map_append, List.foldlM_append, readLoops _ _ (Nat.le_refl size)]
  show (readLoop _ (size : Int)).bind some = _
  rw [Option.bind_fun_some, readLoop, if_neg (by omega), if_neg]
  simp only [List.length_append, List.length_map, List.length_replicate, List.length_range']
  omega

theorem readEntry_eq_some {s s' : LoopStore} {entry : Option Int × Option Int}
    (h : s.readEntry entry = some s') :
    s' = s ∨ ∃ pos id r, s.internalSetLoopIdAt pos id = some (r, s') := by
  rw [readEntry] at h
  split at h
  · split at h
    · next hset =>
      obtain rfl := Option.some.inj h
      exact .inr ⟨_, _, _, hset⟩
    · cases h
  · exact .inl (Option.some.inj h).symm

/-- What setting an id keeps is kept by reading a sequence. -/
theorem readEntries {P : LoopStore → Prop}
    (hP : ∀ s position loopId r s', P s →
      s.internalSetLoopIdAt position loopId = some (r, s') → P s')
    {entries : List (Option Int × Option Int)} {s s' : LoopStore} (hs : P s)
    (h : entries.foldlM readEntry s = some s') : P s' := by
  induction entries generalizing s with
  | nil =>
    obtain rfl := Option.some.inj h
    exact hs
  | cons entry entries ih =>
    rw [List.foldlM_cons] at h
    obtain ⟨s₁, hread, h⟩ := Option.bind_eq_some_iff.mp h
    refine ih ?_ h
    rcases readEntry_eq_some hread with rfl | ⟨position, loopId, r, hset⟩
    · exact hs
    · exact hP s position loopId r s₁ hs hset

theorem internalSetLoopIdAt_store {s s' : LoopStore} {position loopId : Int} {r : LoopStoreResult}
    (h : s.internalSetLoopIdAt position loopId = some (r, s')) :
    s'.loopStore = s.loopStore ∧ s'.lastFreeLoopStorePosition = s.lastFreeLoopStorePosition := by
  rw [internalSetLoopIdAt] at h
  split at h
  · obtain ⟨-, rfl⟩ := Prod.mk.inj (Option.some.inj h)
    exact ⟨rfl, rfl⟩
  · obtain ⟨s₁, hreach, h⟩ := Option.map_eq_some_iff.mp h
    have hsame : s₁.loopStore = s.loopStore ∧
        s₁.lastFreeLoopStorePosition = s.lastFreeLoopStorePosition := by
      rw [LoopStore.reach] at hreach
      split at hreach
      · obtain rfl := Option.some.inj hreach
        exact ⟨rfl, rfl⟩
      · obtain ⟨newv, -, rfl⟩ := Option.map_eq_some_iff.mp hreach
        exact ⟨rfl, rfl⟩
    split at h
    · obtain ⟨-, rfl⟩ := Prod.mk.inj h
      exact hsame
    · obtain ⟨-, rfl⟩ := Prod.mk.inj h
      exact hsame

/-- Loading what was saved, after the loops have been read. -/
theorem Stored.fromXml_eq {s : LoopStore} {loops : List Nat} {free : Nat} (h : s.Stored loops free)
    (sequenceLength : Int) (hle : loops.length ≤ 16) :
    fromXml s.getXml sequenceLength s.made = s.getXml.entries.foldlM readEntry
      ⟨(List.range' s.made loops.length).map some ++ List.replicate (16 - loops.length) none,
        (loops.length - 1 : Nat) + 1, List.replicate sequenceLength.toNat noteNotSet,
        sequenceLength, s.made + loops.length⟩ := by
  have hsize : storeSize ((loops.length : Int) - 1) = 16 := by
    rw [storeSize, if_pos]
    · rfl
    · show ((16 : Nat) : Int) > _
      omega
  unfold fromXml
  rw [h.ids]
  dsimp only
  rw [foldl_max_ids, hsize, readLoops _ _ hle]
  rfl

/-- The greatest id lies outside of the store that is allocated for more than 16 loops. -/
theorem Stored.fromXml_eq_none {s : LoopStore} {loops : List Nat} {free : Nat}
    (h : s.Stored loops free) (sequenceLength : Int) (hlt : 16 < loops.length) :
    fromXml s.getXml sequenceLength s.made = none := by
  obtain ⟨n, hn⟩ : ∃ n, loops.length = n + 1 := ⟨loops.length - 1, by omega⟩
  have hsize : storeSize ((loops.length : Int) - 1) = n := by
    rw [storeSize, if_neg]
    · omega
    · show ¬ ((16 : Nat) : Int) > _
      omega
  unfold fromXml
  rw [h.ids]
  dsimp only
  rw [foldl_max_ids, hsize, hn, readLoops_outside]
  rfl

/-- What was saved is loaded, unless there was no loop: then one is counted that is not there. -/
theorem Stored.reload {s s' : LoopStore} {loops : List Nat} {free : Nat} (h : s.Stored loops free)
    {sequenceLength : Int} (hload : fromXml s.getXml sequenceLength s.made = some s') :
    if loops.length = 0 then ¬ s'.Valid else ∃ loops' free', s'.Stored loops' free' := by
  have hle : loops.length ≤ 16 := by
    by_contra hlt
    rw [h.fromXml_eq_none sequenceLength (by omega)] at hload
    cases hload
  rw [h.fromXml_eq sequenceLength hle] at hload
  split
  · next hempty =>
    rw [hempty] at hload
    have hsame : s'.loopStore = List.replicate 16 none ∧ s'.lastFreeLoopStorePosition = 1 := by
      refine readEntries (P := fun s ↦ s.loopStore = List.replicate 16 none ∧
        s.lastFreeLoopStorePosition = 1) ?_ ⟨rfl, rfl⟩ hload
      rintro s position loopId r s' ⟨hstore, hcount⟩ hset
      obtain ⟨hstore', hcount'⟩ := internalSetLoopIdAt_store hset
      exact ⟨hstore'.trans hstore, hcount'.trans hcount⟩
    intro hvalid
    refine (hvalid.filled 0).mpr ?_ ?_
    · rw [getNrOfLoops, hsame.2]
      decide
    · rw [loop, hsame.1]
      rfl
  · next hsome =>
    refine ⟨List.range' s.made loops.length, 16 - loops.length, readEntries
      (P := fun s' ↦ s'.Stored (List.range' s.made loops.length) (16 - loops.length))
      (fun s position loopId r s' hs hset ↦ hs.internalSetLoopIdAt hset) ?_ hload⟩
    refine ⟨rfl, ?_, List.nodup_range', fun a ha ↦ ?_, ?_, ?_, fun v hv ↦ ?_⟩
    · rw [List.length_range']
      show ((loops.length - 1 : Nat) : Int) + 1 = _
      omega
    · exact (List.mem_range'_1.mp ha).2
    · rw [List.length_range']
      omega
    · rw [List.length_range']
      omega
    · exact .inl (List.eq_of_mem_replicate hv)

/-! ### Runs -/

theorem stored_new (sequenceLength : Int) :
    ∃ loops free, (new sequenceLength).Stored loops free := by
  have hempty : (allocated machineSequencerInitialSequenceLength sequenceLength
      0).prepEmptyLoopSequence.Stored [] 16 :=
    ⟨rfl, rfl, .nil, nofun, by decide, by decide, fun v hv ↦ .inl (List.eq_of_mem_replicate hv)⟩
  exact hempty.internalAddNewLoop

/-- A loop is deleted only if it is there. -/
def asked (s : LoopStore) : LoopStoreOp → Bool
  | .deleteLoop id => 0 ≤ id ∧ id < s.getNrOfLoops
  | _ => true

/-- A loop is deleted while there is a null pointer left in the store; what is saved has at least one
loop, and not more than the initial store has room for. -/
def keepsStore (s : LoopStore) : LoopStoreOp → Bool
  | .deleteLoop _ => s.getNrOfLoops < s.loopStore.length
  | .reload _ => 1 ≤ s.getNrOfLoops ∧ s.getNrOfLoops ≤ machineSequencerInitialSequenceLength
  | _ => true

/-- The store is in order after a step, and the loop of a `deleteLoop` is removed. -/
def Meets (s s' : LoopStore) (op : LoopStoreOp) : Prop :=
  s'.Valid ∧ ∀ id, op = .deleteLoop id → Removed id s s'

theorem Stored.step_iff {s s' : LoopStore} {loops : List Nat} {free : Nat}
    (h : s.Stored loops free) {op : LoopStoreOp} {r : LoopStoreResult} (hasked : s.asked op = true)
    (hstep : s.step op = some (r, s')) :
    (Meets s s' op ↔ s.keepsStore op = true) ∧
      (s.keepsStore op = true → ∃ loops' free', s'.Stored loops' free') := by
  have hkept : (∃ loops' free', s'.Stored loops' free') → (∀ id, op ≠ .deleteLoop id) →
      s.keepsStore op = true → (Meets s s' op ↔ s.keepsStore op = true) ∧
        (s.keepsStore op = true → ∃ loops' free', s'.Stored loops' free') := by
    rintro ⟨loops', free', h'⟩ hop hkeeps
    exact ⟨iff_of_true ⟨h'.valid, fun id hid ↦ absurd hid (hop id)⟩ hkeeps,
      fun _ ↦ ⟨loops', free', h'⟩⟩
  cases op with
  | addNewLoop =>
    obtain rfl : s.internalAddNewLoop.2 = s' := congrArg Prod.snd (Option.some.inj hstep)
    exact hkept h.internalAddNewLoop nofun rfl
  | setLoopIdAt position loopId => exact hkept ⟨_, _, h.internalSetLoopIdAt hstep⟩ nofun rfl
  | setSequenceLength newv =>
    obtain ⟨-, rfl⟩ := Prod.mk.inj (Option.some.inj hstep)
    exact hkept ⟨_, _, h.setSequenceLength newv⟩ nofun rfl
  | deleteLoop id =>
    obtain ⟨s₁, hdelete, hs₁⟩ := Option.map_eq_some_iff.mp hstep
    obtain ⟨-, rfl⟩ := Prod.mk.inj hs₁
    have hid : 0 ≤ id ∧ id < loops.length := by
      have hids := of_decide_eq_true hasked
      rwa [h.getNrOfLoops_eq] at hids
    have hkeeps : s.keepsStore (.deleteLoop id) = true ↔ 0 < free := by
      rw [keepsStore, decide_eq_true_eq, h.getNrOfLoops_eq, h.length_store]
      omega
    rw [hkeeps]
    cases free with
    | zero => exact ⟨iff_of_false (fun hm ↦ h.deleteLoop_full hid hdelete hm.1) (by omega), by omega⟩
    | succ free =>
      have h' := h.deleteLoop hid hdelete
      refine ⟨iff_of_true ⟨h'.valid, fun id' hid' ↦ ?_⟩ (by omega), fun _ ↦ ⟨_, _, h'⟩⟩
      obtain rfl : id = id' := by injection hid'
      exact h.removed hid hdelete
  | reload sequenceLength =>
    obtain ⟨s₁, hload, hs₁⟩ := Option.map_eq_some_iff.mp hstep
    obtain ⟨-, rfl⟩ := Prod.mk.inj hs₁
    have hle : loops.length ≤ 16 := by
      by_contra hlt
      rw [h.fromXml_eq_none sequenceLength (by omega)] at hload
      cases hload
    have hkeeps : s.keepsStore (.reload sequenceLength) = true ↔ loops.length ≠ 0 := by
      rw [keepsStore, decide_eq_true_eq, h.getNrOfLoops_eq]
      show 1 ≤ (loops.length : Int) ∧ (loops.length : Int) ≤ (16 : Nat) ↔ _
      omega
    have hreload := h.reload hload
    split at hreload
    · next hempty =>
      rw [hkeeps]
      exact ⟨iff_of_false (fun hm ↦ hreload hm.1) (fun hne ↦ hne hempty),
        fun hne ↦ absurd hempty hne⟩
    · next hsome => exact hkept hreload nofun (hkeeps.mpr hsome)

/-- For a new sequencer, and one that is loaded from what was saved: as long as no loop is deleted
from a store without a null pointer and what is saved has from 1 to 16 loops, the store is in order.
The first operation that is not so breaks it, or writes outside of the store. -/
theorem store_in_order (sequenceLength : Int) :
    (∀ ops s, Run step (fun s op _ ↦ s.asked op = true ∧ s.keepsStore op = true)
      (new sequenceLength) ops s → s.Valid) ∧
    (∀ ops s op r s', Run step (fun s op _ ↦ s.asked op = true ∧ s.keepsStore op = true)
      (new sequenceLength) ops s → s.asked op = true → s.step op = some (r, s') →
        (Meets s s' op ↔ s.keepsStore op = true)) ∧
    ∀ ops s n, Run step (fun s op _ ↦ s.asked op = true ∧ s.keepsStore op = true)
      (new sequenceLength) ops s → machineSequencerInitialSequenceLength < s.getNrOfLoops →
        s.step (.reload n) = none := by
  have hstored : ∀ ops s, Run step (fun s op _ ↦ s.asked op = true ∧ s.keepsStore op = true)
      (new sequenceLength) ops s → ∃ loops free, s.Stored loops free := by
    intro ops s hrun
    refine hrun.invariant (fun s ↦ ∃ loops free, s.Stored loops free) ?_
      (stored_new sequenceLength)
    rintro s op r s' ⟨loops, free, h⟩ ⟨hasked, hkeeps⟩ hstep
    exact (h.step_iff hasked hstep).2 hkeeps
  refine ⟨fun ops s hrun ↦ ?_, fun ops s op r s' hrun hasked hstep ↦ ?_, fun ops s n hrun hlt ↦ ?_⟩
  · obtain ⟨loops, free, h⟩ := hstored ops s hrun
    exact h.valid
  · obtain ⟨loops, free, h⟩ := hstored ops s hrun
    exact (h.step_iff hasked hstep).1
  · obtain ⟨loops, free, h⟩ := hstored ops s hrun
    rw [h.getNrOfLoops_eq] at hlt
    have hmany : 16 < loops.length := Int.ofNat_lt.mp hlt
    rw [step, h.fromXml_eq_none n hmany]
    rfl

/-- Two loops are added, the third one is set in the sequence, the second one is deleted, and the
project is saved and loaded. -/
theorem store_in_order_reloaded : ∃ s,
    Run step (fun s op _ ↦ s.asked op = true ∧ s.keepsStore op = true) (new 16)
      [.addNewLoop, .addNewLoop, .setLoopIdAt 0 2, .deleteLoop 1, .reload 16] s ∧
    s.getNrOfLoops = 2 ∧ s.loopSequence.head? = some 1 ∧ s.Valid := by
  have hsome : (runAll step (fun s op _ ↦ s.asked op && s.keepsStore op) (new 16)
      [.addNewLoop, .addNewLoop, .setLoopIdAt 0 2, .deleteLoop 1, .reload 16]).map
        (fun s ↦ (s.getNrOfLoops, s.loopSequence.head?)) = some (2, some 1) := by
    decide +kernel
  obtain ⟨s, hs, heq⟩ := Option.map_eq_some_iff.mp hsome
  obtain ⟨hcount, hhead⟩ := Prod.mk.inj heq
  have hrun : Run step (fun s op _ ↦ s.asked op = true ∧ s.keepsStore op = true) (new 16) _ s :=
    (Run.of_runAll hs).mono fun s op _ hok ↦ Bool.and_eq_true_iff.mp hok
  exact ⟨s, hrun, hcount, hhead, (store_in_order 16).1 _ s hrun⟩

/-- A loop is deleted from a store of 16 loops: the last entry still holds a loop. -/
theorem deleted_from_full_store : ¬ ∀ (sequenceLength : Int) (ops : List LoopStoreOp)
    (s : LoopStore), Run step (fun s op _ ↦ s.asked op = true) (new sequenceLength) ops s →
      s.Valid := by
  intro hall
  have hsome : (runAll step (fun s op _ ↦ s.asked op) (new 16)
      (List.replicate 15 .addNewLoop ++ [.deleteLoop 0])).map
        (fun s ↦ (s.getNrOfLoops, s.loop 15)) = some (15, some 15) := by
    decide +kernel
  obtain ⟨s, hs, heq⟩ := Option.map_eq_some_iff.mp hsome
  obtain ⟨hcount, hlast⟩ := Prod.mk.inj heq
  have hvalid := hall 16 _ s (Run.of_runAll hs)
  have hlt := (hvalid.filled 15).mp (by rw [hlast]; nofun)
  rw [hcount] at hlt
  exact absurd hlt (by decide)

end LoopStore

end Vuknob
