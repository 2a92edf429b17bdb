import Mathlib.Data.List.Perm.Subperm
import Vuknob.Library.Chains
import Vuknob.Midi.EventBuilder

/-!
# Which events are on which chain

The free chain and the two chains of every builder never share a node, and every operation
of `MidiEventChainControler` takes a node from the front of one of them or adds one to an end.
-/

namespace Vuknob

open Library

/-- The places that hold a chain: the static member and two members of each builder. -/
inductive Place (ι : Type)
  | free
  | remaining (b : ι)
  | freeable (b : ι)
  deriving DecidableEq

namespace MidiHeap

variable {ι : Type}

/-- The next pointers. -/
def next (h : MidiHeap) (e : EventId) : Option EventId := (h.nodes e).nextInChain

/-- The chains in the nodes: they are apart, the first node of a builder's chain knows its
last, and all nodes have been allocated. -/
structure Holds (h : MidiHeap) (head : Place ι → Option EventId) (nodes : Place ι → List EventId) :
    Prop where
  chains : Chains h.next head nodes
  free : head .free = h.nextFreeMidiEvent
  last : ∀ p, p ≠ .free → ∀ e, (nodes p).head? = some e →
    (h.nodes e).lastInChain = (nodes p).getLast?
  allocated : ∀ p, ∀ e : Nat, e ∈ nodes p → e < h.count

/-- A node that is on no chain, and a chain of its own. -/
structure Loose (h : MidiHeap) (nodes : Place ι → List EventId) (e : Nat) : Prop where
  off : ∀ p, e ∉ nodes p
  next : h.next e = none
  last : (h.nodes e).lastInChain = some e
  allocated : e < h.count

variable {h : MidiHeap} {head : Place ι → Option EventId} {nodes : Place ι → List EventId}

@[simp]
theorem modify_count (e : EventId) (f : MidiEventChain → MidiEventChain) :
    (h.modify e f).count = h.count := rfl

@[simp]
theorem modify_nextFreeMidiEvent (e : EventId) (f : MidiEventChain → MidiEventChain) :
    (h.modify e f).nextFreeMidiEvent = h.nextFreeMidiEvent := rfl

@[simp]
theorem modify_nodes_self (e : EventId) (f : MidiEventChain → MidiEventChain) :
    (h.modify e f).nodes e = f (h.nodes e) := by
  simp [modify]

theorem modify_nodes_of_ne {e x : EventId} (f : MidiEventChain → MidiEventChain) (hx : x ≠ e) :
    (h.modify e f).nodes x = h.nodes x := by
  simp [modify, hx]

theorem modify_next (e : EventId) (f : MidiEventChain → MidiEventChain) :
    (h.modify e f).next = Function.update h.next e (f (h.nodes e)).nextInChain := by
  ext1 x
  rcases eq_or_ne x e with rfl | hx
  · simp [next]
  · simp [next, modify, hx]

/-- The chains depend on the pointers only. -/
theorem Holds.congr {h' : MidiHeap} {head' : Place ι → Option EventId} (hh : h.Holds head nodes)
    (hnext : ∀ e, (h'.nodes e).nextInChain = (h.nodes e).nextInChain)
    (hlast : ∀ e, (h'.nodes e).lastInChain = (h.nodes e).lastInChain)
    (hfree : h'.nextFreeMidiEvent = h.nextFreeMidiEvent) (hcount : h'.count = h.count)
    (hhead : ∀ p, head' p = head p) : h'.Holds head' nodes where
  chains := hh.chains.congr (fun _ a _ ↦ hnext a) hhead
  free := by rw [hhead, hh.free, hfree]
  last p hp e he := by rw [hlast, hh.last p hp e he]
  allocated p e he := by
    rw [hcount]
    exact hh.allocated p e he

/-- Nodes of one chain are on no other. -/
theorem Holds.apart (hh : h.Holds head nodes) {p q : Place ι} {e : EventId} (hp : e ∈ nodes p)
    (hq : e ∈ nodes q) : p = q := by
  by_contra hne
  exact hh.chains.apart p q hne hp hq

/-- A chain has no more nodes than have been allocated. -/
theorem Holds.length_le (hh : h.Holds head nodes) (p : Place ι) : (nodes p).length ≤ h.count := by
  have hsub : nodes p ⊆ List.range h.count := by
    intro e he
    exact List.mem_range.mpr (hh.allocated p e he)
  simpa using (List.subperm_of_subset (hh.chains.nodup p) hsub).length_le

/-- Writing to the event of a loose node leaves it loose. -/
theorem Holds.setEvent {e : EventId} (hh : h.Holds head nodes) (he : h.Loose nodes e)
    (f : MidiEvent → MidiEvent) :
    (h.modify e fun node ↦ { node with event := f node.event }).Holds head nodes ∧
      (h.modify e fun node ↦ { node with event := f node.event }).Loose nodes e := by
  refine ⟨hh.congr (fun x ↦ ?_) (fun x ↦ ?_) rfl rfl fun _ ↦ rfl, ⟨he.off, ?_, ?_, he.allocated⟩⟩
  · rcases eq_or_ne x e with rfl | hx
    · simp
    · rw [modify_nodes_of_ne _ hx]
  · rcases eq_or_ne x e with rfl | hx
    · simp
    · rw [modify_nodes_of_ne _ hx]
  · simpa [next] using he.next
  · simpa using he.last

/-! ### Taking an event -/

variable [DecidableEq ι]

private theorem isList_range {deref : EventId → Option (Option EventId)} {e n : Nat}
    (hlink : ∀ x, e ≤ x → x ≤ e + n →
      deref x = some (if x < e + n then some (x + 1) else none)) :
    IsList deref (some e) (List.range' e (n + 1)) := by
  induction n generalizing e with
  | zero => exact ⟨rfl, none, by simpa using hlink e, rfl⟩
  | succ n ih =>
    refine ⟨rfl, some (e + 1), by simpa using hlink e, ih fun x hle hlt ↦ ?_⟩
    rw [hlink x (by omega) (by omega), Nat.add_right_comm, Nat.add_assoc]

private theorem initFreeMidiEventChain_nodes_of_lt {e : Nat} (he : e < h.count) :
    h.initFreeMidiEventChain.nodes e = h.nodes e := by
  simp only [initFreeMidiEventChain]
  rw [if_neg (by omega)]

private theorem initFreeMidiEventChain_next {e : Nat} (hle : h.count ≤ e)
    (hlt : e ≤ h.count + 255) :
    h.initFreeMidiEventChain.next e = if e < h.count + 255 then some (e + 1) else none := by
  have hin : h.count ≤ e ∧ e < h.count + 256 := by omega
  have hlast : e + 1 < h.count + 256 ↔ e < h.count + 255 := by omega
  simp only [next, initFreeMidiEventChain, defaultMaxFreeChain, if_pos hin, hlast]

/-- The new nodes make up the free chain. -/
theorem Holds.initFreeMidiEventChain (hh : h.Holds head nodes) :
    h.initFreeMidiEventChain.Holds (Function.update head .free (some h.count))
      (Function.update nodes .free (List.range' h.count defaultMaxFreeChain)) := by
  refine ⟨hh.chains.replace ?_ ?_ ?_, by simp [MidiHeap.initFreeMidiEventChain], ?_, ?_⟩
  · intro p _ e he
    rw [next, initFreeMidiEventChain_nodes_of_lt (hh.allocated p e he), next]
  · exact isList_range fun e hle hlt ↦ congrArg some (initFreeMidiEventChain_next hle hlt)
  · intro p _ e he hr
    have hlt := hh.allocated p e he
    have hle := (List.mem_range'_1.mp hr).1
    omega
  · intro p hp e he
    rw [Function.update_of_ne hp] at he ⊢
    rw [initFreeMidiEventChain_nodes_of_lt (hh.allocated p e (List.mem_of_mem_head? he)),
      hh.last p hp e he]
  · intro p e he
    simp only [MidiHeap.initFreeMidiEventChain]
    rcases eq_or_ne p .free with rfl | hp
    · rw [Function.update_self] at he
      exact (List.mem_range'_1.mp he).2
    · rw [Function.update_of_ne hp] at he
      exact Nat.lt_add_right _ (hh.allocated p e he)

private theorem popFrom_nodes_of_ne {e x : EventId} {size : Nat} (hx : x ≠ e) :
    (h.popFrom e size).2.nodes x = h.nodes x := by
  simp [popFrom, modify, hx]

private theorem Holds.popFrom (hh : h.Holds head nodes) {e : EventId} {l : List EventId}
    (hl : nodes .free = e :: l) (size : Nat) :
    (h.popFrom e size).2.Holds (Function.update head .free l.head?)
        (Function.update nodes .free l) ∧
      (h.popFrom e size).2.Loose (Function.update nodes .free l) e := by
  obtain ⟨hc, hoff⟩ := hh.chains.pop hl
  have hnext : h.next e = l.head? := by
    simpa using hc.head_eq .free
  have hne : ∀ p, ∀ x ∈ Function.update nodes .free l p, x ≠ e := by
    rintro p x hx rfl
    exact hoff p hx
  have hsub : ∀ p, ∀ x ∈ Function.update nodes .free l p, x ∈ nodes p := by
    intro p x hx
    rcases eq_or_ne p .free with rfl | hp
    · rw [Function.update_self] at hx
      simp [hl, hx]
    · rwa [Function.update_of_ne hp] at hx
  refine ⟨⟨?_, ?_, ?_, ?_⟩, ⟨hoff, ?_, ?_, ?_⟩⟩
  · rw [← hnext]
    exact hc.congr (fun p x hx ↦ by simp [MidiHeap.popFrom, modify_next]; rfl) fun _ ↦ rfl
  · simpa [MidiHeap.popFrom, next] using hnext.symm
  · intro p hp x hx
    have hxe := hne p x (List.mem_of_mem_head? hx)
    rw [Function.update_of_ne hp] at hx ⊢
    rw [← hh.last p hp x hx]
    rw [popFrom_nodes_of_ne hxe]
  · intro p x hx
    exact hh.allocated p x (hsub p x hx)
  · simp [MidiHeap.popFrom, modify_next]
  · simp [MidiHeap.popFrom]
  · exact hh.allocated .free e (by simp [hl])

/-- `pop_next_free_midi` takes the first node of the free chain, or a new one when the chain
is empty; no other node changes. -/
theorem Holds.popNextFreeMidi (hh : h.Holds head nodes) (size : Nat) :
    ∃ e h' l, h.popNextFreeMidi size = (e, h') ∧
      (nodes .free = e :: l ∨ nodes .free = [] ∧ h.count ≤ e) ∧
      (∀ x : Nat, x ∈ nodes .free ∨ h.count ≤ x ∧ x < h'.count → x ∈ e :: l) ∧
      h'.Holds (Function.update head .free l.head?) (Function.update nodes .free l) ∧
      h'.Loose (Function.update nodes .free l) e ∧
      (∀ x < h.count, x ≠ e → h'.nodes x = h.nodes x) := by
  have hfree := hh.free
  rw [hh.chains.head_eq] at hfree
  cases hl : nodes .free with
  | nil =>
    have hi := hh.initFreeMidiEventChain
    obtain ⟨hp, hloose⟩ := hi.popFrom (Function.update_self _ _ _) size
    rw [Function.update_idem, Function.update_idem] at hp
    rw [Function.update_idem] at hloose
    refine ⟨h.count, (h.initFreeMidiEventChain.popFrom h.count size).2, _, ?_,
      .inr ⟨rfl, Nat.le_refl _⟩, fun x hx ↦ ?_, hp, hloose, ?_⟩
    · rw [MidiHeap.popNextFreeMidi, ← hfree, hl]
      rfl
    · have hnew := hx.resolve_left (by simp)
      exact List.mem_range'_1.mpr hnew
    · intro x hlt hx
      rw [popFrom_nodes_of_ne hx, initFreeMidiEventChain_nodes_of_lt hlt]
  | cons e l =>
    obtain ⟨hp, hloose⟩ := hh.popFrom hl size
    refine ⟨e, (h.popFrom e size).2, l, ?_, .inl rfl, fun x hx ↦ ?_, hp, hloose, ?_⟩
    · rw [MidiHeap.popNextFreeMidi, ← hfree, hl]
      rfl
    · refine hx.resolve_right fun hnew ↦ ?_
      exact absurd hnew.2 (Nat.not_lt.mpr hnew.1)
    · intro x _ hx
      exact popFrom_nodes_of_ne hx

/-! ### Moving an event -/

private theorem pushNextFreeMidi_next (e : EventId) :
    (h.pushNextFreeMidi e).next = Function.update h.next e h.nextFreeMidiEvent := by
  ext1 x
  rcases eq_or_ne x e with rfl | hx
  · simp [pushNextFreeMidi, next]
  · simp [pushNextFreeMidi, next, modify, hx]

/-- `push_next_free_midi` puts a loose node in front of the free chain. -/
theorem Holds.pushNextFreeMidi (hh : h.Holds head nodes) {e : EventId} (he : h.Loose nodes e) :
    (h.pushNextFreeMidi e).Holds (Function.update head .free (some e))
      (Function.update nodes .free (e :: nodes .free)) := by
  refine ⟨?_, ?_, ?_, ?_⟩
  · refine (hh.chains.push .free he.off).congr (fun p x _ ↦ ?_) fun _ ↦ rfl
    rw [hh.free, pushNextFreeMidi_next]
  · simp [MidiHeap.pushNextFreeMidi]
  · intro p hp x hx
    rw [Function.update_of_ne hp] at hx ⊢
    have hxe : x ≠ e := by
      rintro rfl
      exact he.off p (List.mem_of_mem_head? hx)
    rw [← hh.last p hp x hx]
    simp [MidiHeap.pushNextFreeMidi, modify, hxe]
  · intro p x hx
    rcases eq_or_ne p .free with rfl | hp
    · rw [Function.update_self] at hx
      rcases List.mem_cons.mp hx with rfl | hx
      · exact he.allocated
      · exact hh.allocated .free x hx
    · rw [Function.update_of_ne hp] at hx
      exact hh.allocated p x hx

theorem pushNextFreeMidi_event (e x : EventId) :
    ((h.pushNextFreeMidi e).nodes x).event = (h.nodes x).event := by
  rcases eq_or_ne x e with rfl | hx
  · simp [pushNextFreeMidi]
  · simp [pushNextFreeMidi, modify, hx]

private theorem getChainHead_nodes (e x : EventId) :
    ((h.getChainHead e).2.nodes x).event = (h.nodes x).event ∧
    (h.getChainHead e).2.next x = Function.update h.next e none x ∧
    ((h.getChainHead e).2.nodes x).lastInChain =
      if x = e then some e
      else if h.next e = some x then (h.nodes e).lastInChain
      else (h.nodes x).lastInChain := by
  cases hn : (h.nodes e).nextInChain with
  | none =>
    rcases eq_or_ne x e with rfl | hx
    · simp [getChainHead, hn, next]
    · simp [getChainHead, hn, next, modify, hx]
  | some n =>
    rcases eq_or_ne x e with rfl | hx
    · rcases eq_or_ne x n with rfl | hxn
      · simp [getChainHead, hn, next]
      · simp [getChainHead, hn, next, modify, hxn]
    · rcases eq_or_ne x n with rfl | hxn
      · simp [getChainHead, hn, next, modify, hx]
      · simp [getChainHead, hn, next, modify, hx, hxn, Ne.symm hxn]

theorem getChainHead_event (e x : EventId) :
    ((h.getChainHead e).2.nodes x).event = (h.nodes x).event := (getChainHead_nodes e x).1

@[simp]
theorem getChainHead_count (e : EventId) : (h.getChainHead e).2.count = h.count := by
  rw [getChainHead]
  split <;> rfl

@[simp]
theorem getChainHead_nextFreeMidiEvent (e : EventId) :
    (h.getChainHead e).2.nextFreeMidiEvent = h.nextFreeMidiEvent := by
  rw [getChainHead]
  split <;> rfl

/-- `get_chain_head` takes the first node of a builder's chain. -/
theorem Holds.getChainHead (hh : h.Holds head nodes) {p : Place ι} (hp : p ≠ .free) {e : EventId}
    {l : List EventId} (hl : nodes p = e :: l) :
    (h.getChainHead e).2.Holds (Function.update head p (h.getChainHead e).1)
        (Function.update nodes p l) ∧
      (h.getChainHead e).2.Loose (Function.update nodes p l) e := by
  obtain ⟨hc, hoff⟩ := hh.chains.pop hl
  have hnext : h.next e = l.head? := by simpa using hc.head_eq p
  refine ⟨⟨?_, ?_, ?_, ?_⟩, ⟨hoff, ?_, ?_, ?_⟩⟩
  · exact hc.congr (fun _ x _ ↦ (getChainHead_nodes e x).2.1) fun _ ↦ rfl
  · rw [Function.update_of_ne hp.symm, hh.free, getChainHead_nextFreeMidiEvent]
  · intro q hq x hx
    have hxe : x ≠ e := by
      rintro rfl
      exact hoff q (List.mem_of_mem_head? hx)
    rw [(getChainHead_nodes e x).2.2, if_neg hxe]
    rcases eq_or_ne q p with rfl | hqp
    · -- The second node becomes the first one, and is told the last.
      rw [Function.update_self] at hx ⊢
      rw [hnext, if_pos hx, hh.last q hq e (by simp [hl]), hl]
      obtain ⟨t, rfl⟩ := List.head?_eq_some_iff.mp hx
      simp [List.getLast?_cons]
    · rw [Function.update_of_ne hqp] at hx ⊢
      rw [hnext, if_neg, hh.last q hq x hx]
      intro hx'
      apply hqp
      exact hh.apart (List.mem_of_mem_head? hx) (by simp [hl, List.mem_of_mem_head? hx'])
  · intro q x hx
    rw [getChainHead_count]
    rcases eq_or_ne q p with rfl | hqp
    · rw [Function.update_self] at hx
      exact hh.allocated q x (by simp [hl, hx])
    · rw [Function.update_of_ne hqp] at hx
      exact hh.allocated q x hx
  · rw [(getChainHead_nodes e e).2.1, Function.update_self]
  · rw [(getChainHead_nodes e e).2.2, if_pos rfl]
  · rw [getChainHead_count]
    exact hh.allocated p e (by simp [hl])

private theorem exists_chainToTail {d z e : EventId}
    (hz : (h.nodes d).lastInChain = some z) (he : (h.nodes e).lastInChain = some e) :
    ∃ h', h.chainToTail (some d) e = some (some d, h') ∧ h'.count = h.count ∧
      h'.nextFreeMidiEvent = h.nextFreeMidiEvent ∧
      (∀ x, (h'.nodes x).event = (h.nodes x).event) ∧
      h'.next = Function.update h.next z (some e) ∧
      ∀ x, (h'.nodes x).lastInChain = if x = d then some e else (h.nodes x).lastInChain := by
  have hsource : ((h.modify z fun n ↦ { n with nextInChain := some e }).nodes e).lastInChain =
      some e := by
    rcases eq_or_ne e z with rfl | hez
    · simp [he]
    · rw [modify_nodes_of_ne _ hez, he]
  simp only [chainToTail, hz, hsource]
  refine ⟨_, rfl, rfl, rfl, ?_, ?_, ?_⟩
  · intro x
    simp only [modify, Function.update_apply]
    split_ifs <;> simp_all
  · ext1 x
    simp only [next, modify, Function.update_apply]
    split_ifs <;> simp_all
  · intro x
    simp only [modify, Function.update_apply]
    split_ifs <;> simp_all

/-- `chain_to_tail` adds a loose node behind the last one of a builder's chain. -/
theorem Holds.chainToTail (hh : h.Holds head nodes) {p : Place ι} (hp : p ≠ .free) {e : EventId}
    (he : h.Loose nodes e) :
    ∃ c h', h.chainToTail (head p) e = some (c, h') ∧
      h'.Holds (Function.update head p c) (Function.update nodes p (nodes p ++ [e])) ∧
      h'.count = h.count ∧ h'.nextFreeMidiEvent = h.nextFreeMidiEvent ∧
      ∀ x, (h'.nodes x).event = (h.nodes x).event := by
  have halloc : ∀ q, ∀ x : Nat, x ∈ Function.update nodes p (nodes p ++ [e]) q → x < h.count := by
    intro q x hx
    rcases eq_or_ne q p with rfl | hqp
    · rw [Function.update_self] at hx
      rcases List.mem_append.mp hx with hx | hx
      · exact hh.allocated q x hx
      · obtain rfl := List.mem_singleton.mp hx
        exact he.allocated
    · rw [Function.update_of_ne hqp] at hx
      exact hh.allocated q x hx
  have hhead := hh.chains.head_eq p
  rcases List.eq_nil_or_concat' (nodes p) with hnil | ⟨l, z, hsnoc⟩
  · rw [hnil] at hhead halloc ⊢
    refine ⟨some e, h, by simp [hhead, MidiHeap.chainToTail], ⟨?_, ?_, ?_, halloc⟩, rfl, rfl,
      fun _ ↦ rfl⟩
    · exact hh.chains.singleton p he.off he.next
    · rw [Function.update_of_ne hp.symm, hh.free]
    · intro q hq x hx
      rcases eq_or_ne q p with rfl | hqp
      · rw [Function.update_self] at hx ⊢
        obtain rfl : e = x := by simpa using hx
        exact he.last
      · rw [Function.update_of_ne hqp] at hx ⊢
        exact hh.last q hq x hx
  · obtain ⟨d, hd⟩ : ∃ d, (nodes p).head? = some d := by
      rw [hsnoc]
      cases l <;> simp
    have hz : (h.nodes d).lastInChain = some z := by
      rw [hh.last p hp d hd, hsnoc]
      simp
    obtain ⟨h', hc, hcount, hfree, hevent, hnext, hlast⟩ := exists_chainToTail hz he.last
    rw [hhead, hd]
    refine ⟨some d, h', hc, ⟨?_, ?_, ?_, ?_⟩, hcount, hfree, hevent⟩
    · have hs := hh.chains.snoc hsnoc he.off he.next
      rw [← hnext] at hs
      rw [hd] at hhead
      rw [← hhead, Function.update_eq_self, hsnoc, List.append_assoc]
      exact hs
    · rw [Function.update_of_ne hp.symm, hh.free, hfree]
    · intro q hq x hx
      rw [hlast]
      rcases eq_or_ne q p with rfl | hqp
      · rw [Function.update_self] at hx ⊢
        rw [List.head?_append, hd] at hx
        rw [if_pos (by simpa using hx.symm)]
        simp
      · rw [Function.update_of_ne hqp] at hx ⊢
        rw [if_neg, hh.last q hq x hx]
        rintro rfl
        exact hqp (hh.apart (List.mem_of_mem_head? hx) (List.mem_of_mem_head? hd))
    · rw [hcount]
      exact halloc

end MidiHeap

end Vuknob
