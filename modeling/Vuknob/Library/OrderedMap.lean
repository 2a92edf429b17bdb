import Mathlib.Data.List.Nodup
import Mathlib.Order.Lattice

/-!
# Ordered maps with nodes

A map in which every entry is a node of its own, kept in the order of the keys. Positions in the
map are nodes, or the end. A node stays one of the map until it is erased, whatever else is added or
erased, and a node that is made is none that has been there before; so a position that has been
kept through changes of the map can be told from one that is still good.
-/

namespace Library

variable {κ β : Type} [LinearOrder κ]

/-- An entry of an ordered map. -/
structure MapNode (κ β : Type) where
  node : Nat
  key : κ
  value : β
  deriving DecidableEq

/-- The entries in the order of their keys; nodes from `fresh` on have not been used. -/
structure OrderedMap (κ β : Type) [LinearOrder κ] where
  nodes : List (MapNode κ β)
  fresh : Nat
  sorted : nodes.Pairwise fun a b ↦ a.key < b.key
  distinct : nodes.Pairwise fun a b ↦ a.node ≠ b.node
  below : ∀ n ∈ nodes, n.node < fresh

/-! ## Searching a sorted list -/

/-- In a list that is in order, the first element with a property is the least one. -/
theorem find?_pairwise_eq_some_iff {α : Type} {R : α → α → Prop} (hasymm : ∀ a b, R a b → ¬ R b a)
    {l : List α} (h : l.Pairwise R) {p : α → Bool} {n : α} :
    l.find? p = some n ↔ n ∈ l ∧ p n = true ∧ ∀ q ∈ l, p q = true → ¬ R q n := by
  induction l with
  | nil => exact ⟨nofun, fun hn ↦ absurd hn.1 List.not_mem_nil⟩
  | cons a l ih =>
    obtain ⟨hless, hl⟩ := List.pairwise_cons.mp h
    by_cases ha : p a = true
    · rw [List.find?_cons_of_pos ha, Option.some.injEq]
      constructor
      · rintro rfl
        refine ⟨List.mem_cons_self, ha, fun q hq _ hR ↦ ?_⟩
        rcases List.mem_cons.mp hq with rfl | hq
        · exact hasymm q q hR hR
        · exact hasymm q a hR (hless q hq)
      · rintro ⟨hn, -, hleast⟩
        rcases List.mem_cons.mp hn with rfl | hn
        · rfl
        · exact absurd (hless n hn) (hleast a List.mem_cons_self ha)
    · rw [List.find?_cons_of_neg ha, ih hl]
      constructor
      · rintro ⟨hn, hp, hleast⟩
        refine ⟨List.mem_cons_of_mem a hn, hp, fun q hq hpq ↦ ?_⟩
        rcases List.mem_cons.mp hq with rfl | hq
        · exact absurd hpq ha
        · exact hleast q hq hpq
      · rintro ⟨hn, hp, hleast⟩
        refine ⟨?_, hp, fun q hq ↦ hleast q (List.mem_cons_of_mem a hq)⟩
        rcases List.mem_cons.mp hn with rfl | hn
        · exact absurd hp ha
        · exact hn

/-- Two elements of a list are one unless they are related in one of the ways. -/
private theorem eq_of_pairwise {α : Type} {R : α → α → Prop} {l : List α} (h : l.Pairwise R)
    {a b : α} (ha : a ∈ l) (hb : b ∈ l) (hab : ¬ R a b) (hba : ¬ R b a) : a = b := by
  induction h with
  | nil => exact absurd ha List.not_mem_nil
  | cons hhead _ ih =>
    rcases List.mem_cons.mp ha with rfl | ha'
    · rcases List.mem_cons.mp hb with rfl | hb'
      · rfl
      · exact absurd (hhead b hb') hab
    · rcases List.mem_cons.mp hb with rfl | hb'
      · exact absurd (hhead a ha') hba
      · exact ih ha' hb'

namespace OrderedMap

variable {m : OrderedMap κ β}

/-- The map without entries. -/
def empty (fresh : Nat) : OrderedMap κ β := ⟨[], fresh, .nil, .nil, nofun⟩

/-- The first entry whose key is not less than the given one. -/
def lowerBound (m : OrderedMap κ β) (key : κ) : Option (MapNode κ β) :=
  m.nodes.find? fun n ↦ key ≤ n.key

/-- The first entry whose key is greater than the given one. -/
def upperBound (m : OrderedMap κ β) (key : κ) : Option (MapNode κ β) :=
  m.nodes.find? fun n ↦ key < n.key

/-- The first entry. -/
def first (m : OrderedMap κ β) : Option (MapNode κ β) := m.nodes.find? fun _ ↦ true

/-- The last entry whose key is less than the given one. -/
def before (m : OrderedMap κ β) (key : κ) : Option (MapNode κ β) :=
  m.nodes.reverse.find? fun n ↦ n.key < key

/-- The entry at a node, where the node is one of the map. -/
def get (m : OrderedMap κ β) (node : Nat) : Option (MapNode κ β) :=
  m.nodes.find? fun n ↦ n.node = node

theorem lowerBound_eq_some_iff {key : κ} {n : MapNode κ β} :
    m.lowerBound key = some n ↔
      n ∈ m.nodes ∧ key ≤ n.key ∧ ∀ q ∈ m.nodes, key ≤ q.key → n.key ≤ q.key := by
  simp only [lowerBound, find?_pairwise_eq_some_iff (fun _ _ ↦ lt_asymm) m.sorted, not_lt,
    decide_eq_true_eq]

theorem lowerBound_eq_none_iff {key : κ} :
    m.lowerBound key = none ↔ ∀ q ∈ m.nodes, q.key < key := by
  simp only [lowerBound, List.find?_eq_none, decide_eq_true_eq, not_le]

theorem upperBound_eq_some_iff {key : κ} {n : MapNode κ β} :
    m.upperBound key = some n ↔
      n ∈ m.nodes ∧ key < n.key ∧ ∀ q ∈ m.nodes, key < q.key → n.key ≤ q.key := by
  simp only [upperBound, find?_pairwise_eq_some_iff (fun _ _ ↦ lt_asymm) m.sorted, not_lt,
    decide_eq_true_eq]

theorem first_eq_some_iff {n : MapNode κ β} :
    m.first = some n ↔ n ∈ m.nodes ∧ ∀ q ∈ m.nodes, n.key ≤ q.key := by
  simp only [first, find?_pairwise_eq_some_iff (fun _ _ ↦ lt_asymm) m.sorted, not_lt, true_and,
    forall_const]

theorem first_eq_none_iff : m.first = none ↔ m.nodes = [] := by
  simp only [first, List.find?_eq_none, not_true_eq_false, List.eq_nil_iff_forall_not_mem]

theorem before_eq_some_iff {key : κ} {n : MapNode κ β} :
    m.before key = some n ↔
      n ∈ m.nodes ∧ n.key < key ∧ ∀ q ∈ m.nodes, q.key < key → q.key ≤ n.key := by
  have hreverse : m.nodes.reverse.Pairwise fun a b ↦ b.key < a.key :=
    List.pairwise_reverse.mpr m.sorted
  simp only [before, find?_pairwise_eq_some_iff (fun _ _ ↦ lt_asymm) hreverse, not_lt,
    List.mem_reverse, decide_eq_true_eq]

theorem before_eq_none_iff {key : κ} : m.before key = none ↔ ∀ q ∈ m.nodes, key ≤ q.key := by
  simp only [before, List.find?_eq_none, List.mem_reverse, decide_eq_true_eq, not_lt]

/-- Entries at the same node are one. -/
theorem eq_of_node_eq {a b : MapNode κ β} (ha : a ∈ m.nodes) (hb : b ∈ m.nodes)
    (h : a.node = b.node) : a = b :=
  eq_of_pairwise m.distinct ha hb (fun hne ↦ hne h) fun hne ↦ hne h.symm

theorem get_eq_some_iff {node : Nat} {n : MapNode κ β} :
    m.get node = some n ↔ n ∈ m.nodes ∧ n.node = node := by
  have hfound : ∀ {q : MapNode κ β}, m.get node = some q → q ∈ m.nodes ∧ q.node = node := by
    intro q hq
    have hnode := List.find?_some hq
    exact ⟨List.mem_of_find?_eq_some hq, by simpa using hnode⟩
  refine ⟨hfound, ?_⟩
  rintro ⟨hn, hnode⟩
  cases hget : m.get node with
  | none =>
    have hnot := List.find?_eq_none.mp hget n hn
    exact absurd (decide_eq_true hnode) hnot
  | some q =>
    obtain ⟨hq, hqnode⟩ := hfound hget
    rw [eq_of_node_eq hq hn (hqnode.trans hnode.symm)]

@[simp]
theorem get_node {n : MapNode κ β} (h : n ∈ m.nodes) : m.get n.node = some n :=
  get_eq_some_iff.mpr ⟨h, rfl⟩

/-! ## Neighbours of a key -/

theorem lowerBound_key {n : MapNode κ β} (h : n ∈ m.nodes) : m.lowerBound n.key = some n :=
  lowerBound_eq_some_iff.mpr ⟨h, le_refl _, fun _ _ hle ↦ hle⟩

/-- Up to the first entry, that is the next one. -/
theorem lowerBound_of_first {n : MapNode κ β} {key : κ} (h : m.first = some n) (hle : key ≤ n.key) :
    m.lowerBound key = some n := by
  obtain ⟨hn, hleast⟩ := first_eq_some_iff.mp h
  exact lowerBound_eq_some_iff.mpr ⟨hn, hle, fun q hq _ ↦ hleast q hq⟩

/-- Up to the first entry, there is none before. -/
theorem before_of_first {n : MapNode κ β} {key : κ} (h : m.first = some n) (hle : key ≤ n.key) :
    m.before key = none :=
  before_eq_none_iff.mpr fun q hq ↦ hle.trans ((first_eq_some_iff.mp h).2 q hq)

/-- A key is between two entries that follow each other exactly if they are its neighbours. -/
theorem neighbours_iff {p n : MapNode κ β} {key : κ} (hn : n ∈ m.nodes) :
    (m.before n.key = some p ∧ p.key < key ∧ key < n.key) ↔
      m.lowerBound key = some n ∧ n.key ≠ key ∧ m.before key = some p := by
  constructor
  · rintro ⟨hbefore, hp, hlt⟩
    obtain ⟨hmem, -, hgreatest⟩ := before_eq_some_iff.mp hbefore
    refine ⟨lowerBound_eq_some_iff.mpr ⟨hn, hlt.le, fun q hq hle ↦ ?_⟩, hlt.ne', ?_⟩
    · by_contra hless
      exact absurd (hle.trans (hgreatest q hq (not_le.mp hless))) (not_le_of_gt hp)
    · exact before_eq_some_iff.mpr ⟨hmem, hp, fun q hq hq' ↦ hgreatest q hq (hq'.trans hlt)⟩
  · rintro ⟨hlower, hne, hbefore⟩
    obtain ⟨-, hle, hleast⟩ := lowerBound_eq_some_iff.mp hlower
    obtain ⟨hmem, hp, hgreatest⟩ := before_eq_some_iff.mp hbefore
    have hlt : key < n.key := lt_of_le_of_ne hle hne.symm
    refine ⟨before_eq_some_iff.mpr ⟨hmem, hp.trans hlt, fun q hq hq' ↦ ?_⟩, hp, hlt⟩
    by_contra hless
    have hge : key ≤ q.key := not_lt.mp fun hq'' ↦ hless (hgreatest q hq hq'')
    exact absurd (hleast q hq hge) (not_le_of_gt hq')

/-! ## Changes -/

/-- Set the value under a key: the entry that is there keeps its node, otherwise one is made. -/
def setNodes (fresh : Nat) (key : κ) (value : β) : List (MapNode κ β) → List (MapNode κ β)
  | [] => [⟨fresh, key, value⟩]
  | n :: rest =>
    if n.key < key then n :: setNodes fresh key value rest
    else if key < n.key then ⟨fresh, key, value⟩ :: n :: rest
    else { n with value := value } :: rest

theorem mem_setNodes {fresh : Nat} {key : κ} {value : β} {l : List (MapNode κ β)}
    {q : MapNode κ β} (h : q ∈ setNodes fresh key value l) :
    q = ⟨fresh, key, value⟩ ∨ ∃ n ∈ l, q.node = n.node ∧ q.key = n.key := by
  induction l with
  | nil => exact .inl (List.mem_singleton.mp h)
  | cons n rest ih =>
    rw [setNodes] at h
    have hrest : q ∈ n :: rest → ∃ n' ∈ n :: rest, q.node = n'.node ∧ q.key = n'.key :=
      fun hq ↦ ⟨q, hq, rfl, rfl⟩
    split_ifs at h with hlt hgt
    · rcases List.mem_cons.mp h with rfl | h
      · exact .inr (hrest List.mem_cons_self)
      · refine (ih h).imp_right ?_
        rintro ⟨n', hn', heq⟩
        exact ⟨n', List.mem_cons_of_mem n hn', heq⟩
    · exact (List.mem_cons.mp h).imp_right hrest
    · rcases List.mem_cons.mp h with rfl | h
      · exact .inr ⟨n, List.mem_cons_self, rfl, rfl⟩
      · exact .inr (hrest (List.mem_cons_of_mem n h))

theorem sorted_setNodes (fresh : Nat) (key : κ) (value : β) {l : List (MapNode κ β)}
    (h : l.Pairwise fun a b ↦ a.key < b.key) :
    (setNodes fresh key value l).Pairwise fun a b ↦ a.key < b.key := by
  induction l with
  | nil => exact List.pairwise_singleton _ _
  | cons n rest ih =>
    obtain ⟨hless, hrest⟩ := List.pairwise_cons.mp h
    rw [setNodes]
    split_ifs with hlt hgt
    · refine List.pairwise_cons.mpr ⟨fun q hq ↦ ?_, ih hrest⟩
      rcases mem_setNodes hq with rfl | ⟨n', hn', -, hkey⟩
      · exact hlt
      · rw [hkey]
        exact hless n' hn'
    · refine List.pairwise_cons.mpr ⟨fun q hq ↦ ?_, h⟩
      rcases List.mem_cons.mp hq with rfl | hq
      · exact hgt
      · exact hgt.trans (hless q hq)
    · exact List.pairwise_cons.mpr ⟨hless, hrest⟩

theorem distinct_setNodes {fresh : Nat} (key : κ) (value : β) {l : List (MapNode κ β)}
    (h : l.Pairwise fun a b ↦ a.node ≠ b.node) (hbelow : ∀ n ∈ l, n.node < fresh) :
    (setNodes fresh key value l).Pairwise fun a b ↦ a.node ≠ b.node := by
  induction l with
  | nil => exact List.pairwise_singleton _ _
  | cons n rest ih =>
    obtain ⟨hne, hrest⟩ := List.pairwise_cons.mp h
    have hrestBelow : ∀ n' ∈ rest, n'.node < fresh := fun n' hn' ↦
      hbelow n' (List.mem_cons_of_mem n hn')
    rw [setNodes]
    split_ifs
    · refine List.pairwise_cons.mpr ⟨fun q hq ↦ ?_, ih hrest hrestBelow⟩
      rcases mem_setNodes hq with rfl | ⟨n', hn', hnode, -⟩
      · exact Nat.ne_of_lt (hbelow n List.mem_cons_self)
      · rw [hnode]
        exact hne n' hn'
    · refine List.pairwise_cons.mpr ⟨fun q hq ↦ ?_, h⟩
      exact Nat.ne_of_gt (hbelow q hq)
    · exact List.pairwise_cons.mpr ⟨hne, hrest⟩

/-- Set the value under a key. -/
def set (m : OrderedMap κ β) (key : κ) (value : β) : OrderedMap κ β where
  nodes := setNodes m.fresh key value m.nodes
  fresh := m.fresh + 1
  sorted := sorted_setNodes m.fresh key value m.sorted
  distinct := distinct_setNodes key value m.distinct m.below
  below := by
    intro q hq
    rcases mem_setNodes hq with rfl | ⟨n, hn, hnode, -⟩
    · exact Nat.lt_succ_self _
    · rw [hnode]
      exact Nat.lt_succ_of_lt (m.below n hn)

/-- Keep the entries with a property. -/
def keep (m : OrderedMap κ β) (p : MapNode κ β → Bool) : OrderedMap κ β where
  nodes := m.nodes.filter p
  fresh := m.fresh
  sorted := m.sorted.filter p
  distinct := m.distinct.filter p
  below := fun n hn ↦ m.below n (List.mem_of_mem_filter hn)

/-- Set the values under several keys, one after the other. -/
def setAll (m : OrderedMap κ β) (entries : List (κ × β)) : OrderedMap κ β :=
  entries.foldl (fun m entry ↦ m.set entry.1 entry.2) m

/-! ## Values -/

/-- The value under a key in a list of entries. -/
def valueAt (key : κ) (l : List (MapNode κ β)) : Option β :=
  (l.find? fun n ↦ n.key = key).map MapNode.value

/-- The value under a key. -/
def lookup (m : OrderedMap κ β) (key : κ) : Option β := valueAt key m.nodes

/-- The keys with their values. -/
def entries (m : OrderedMap κ β) : List (κ × β) := m.nodes.map fun n ↦ (n.key, n.value)

theorem valueAt_cons_self {n : MapNode κ β} {key : κ} (h : n.key = key)
    (l : List (MapNode κ β)) : valueAt key (n :: l) = some n.value := by
  rw [valueAt, List.find?_cons_of_pos (by simpa using h)]
  rfl

theorem valueAt_cons_of_ne {n : MapNode κ β} {key : κ} (h : n.key ≠ key)
    (l : List (MapNode κ β)) : valueAt key (n :: l) = valueAt key l := by
  rw [valueAt, List.find?_cons_of_neg (by simpa using h)]
  rfl

theorem lookup_eq_none_iff {key : κ} : m.lookup key = none ↔ ∀ n ∈ m.nodes, n.key ≠ key := by
  rw [lookup, valueAt, Option.map_eq_none_iff]
  simp only [List.find?_eq_none, decide_eq_true_eq, ne_eq]

theorem valueAt_setNodes_self (fresh : Nat) (key : κ) (value : β) (l : List (MapNode κ β)) :
    valueAt key (setNodes fresh key value l) = some value := by
  induction l with
  | nil => exact valueAt_cons_self rfl []
  | cons n rest ih =>
    rw [setNodes]
    split_ifs with hlt hgt
    · rw [valueAt_cons_of_ne hlt.ne, ih]
    · exact valueAt_cons_self rfl _
    · have hkey : n.key = key := le_antisymm (not_lt.mp hgt) (not_lt.mp hlt)
      exact valueAt_cons_self (n := { n with value := value }) hkey rest

theorem valueAt_setNodes_of_ne (fresh : Nat) {key key' : κ} (value : β) (l : List (MapNode κ β))
    (hne : key ≠ key') : valueAt key' (setNodes fresh key value l) = valueAt key' l := by
  induction l with
  | nil => exact valueAt_cons_of_ne hne []
  | cons n rest ih =>
    rw [setNodes]
    split_ifs with hlt hgt
    · by_cases hkey : n.key = key'
      · rw [valueAt_cons_self hkey, valueAt_cons_self hkey]
      · rw [valueAt_cons_of_ne hkey, valueAt_cons_of_ne hkey, ih]
    · exact valueAt_cons_of_ne hne _
    · have hkey : n.key = key := le_antisymm (not_lt.mp hgt) (not_lt.mp hlt)
      rw [valueAt_cons_of_ne (n := { n with value := value }) (hkey.trans_ne hne),
        valueAt_cons_of_ne (hkey.trans_ne hne)]

/-- Setting the value under a key changes what is found under this key, and nothing else. -/
theorem lookup_set (m : OrderedMap κ β) (key : κ) (value : β) (key' : κ) :
    (m.set key value).lookup key' = if key' = key then some value else m.lookup key' := by
  split
  · next heq =>
    rw [heq]
    exact valueAt_setNodes_self ..
  · next hne => exact valueAt_setNodes_of_ne _ _ _ (Ne.symm hne)

/-- What is kept is found under its key, and nothing else. -/
theorem lookup_keep (m : OrderedMap κ β) (p : κ → Bool) (key : κ) :
    (m.keep fun n ↦ p n.key).lookup key = if p key then m.lookup key else none := by
  have hfind : ∀ l : List (MapNode κ β),
      valueAt key (l.filter fun n ↦ p n.key) = if p key then valueAt key l else none := by
    intro l
    induction l with
    | nil => exact (ite_self none).symm
    | cons n rest ih =>
      rw [List.filter_cons]
      by_cases hkey : n.key = key
      · rw [valueAt_cons_self hkey, hkey]
        by_cases hp : p key = true
        · rw [if_pos hp, if_pos hp, valueAt_cons_self hkey]
        · rw [if_neg hp, if_neg hp, ih, if_neg hp]
      · rw [valueAt_cons_of_ne hkey, ← ih]
        split
        · exact valueAt_cons_of_ne hkey _
        · rfl
  exact hfind m.nodes

theorem setNodes_of_forall_lt (fresh : Nat) {key : κ} (value : β) {l : List (MapNode κ β)}
    (h : ∀ n ∈ l, n.key < key) : setNodes fresh key value l = l ++ [⟨fresh, key, value⟩] := by
  induction l with
  | nil => rfl
  | cons n rest ih =>
    obtain ⟨hn, hrest⟩ := List.forall_mem_cons.mp h
    rw [setNodes, if_pos hn, ih hrest]
    rfl

/-- Setting values under keys that go up, behind those that are there, adds them in this order. -/
theorem entries_setAll {l : List (κ × β)} (hsorted : l.Pairwise fun a b ↦ a.1 < b.1)
    (hbehind : ∀ n ∈ m.nodes, ∀ entry ∈ l, n.key < entry.1) :
    (m.setAll l).entries = m.entries ++ l := by
  induction l generalizing m with
  | nil => exact (List.append_nil _).symm
  | cons entry l ih =>
    obtain ⟨hless, hrest⟩ := List.pairwise_cons.mp hsorted
    have hnodes : (m.set entry.1 entry.2).nodes = m.nodes ++ [⟨m.fresh, entry.1, entry.2⟩] :=
      setNodes_of_forall_lt m.fresh entry.2 fun n hn ↦ hbehind n hn entry List.mem_cons_self
    have hset : (m.set entry.1 entry.2).entries = m.entries ++ [entry] := by
      rw [entries, hnodes, List.map_append]
      rfl
    have hnext := ih (m := m.set entry.1 entry.2) hrest fun n hn entry' hentry' ↦ by
      rw [hnodes] at hn
      rcases List.mem_append.mp hn with hn | hn
      · exact hbehind n hn entry' (List.mem_cons_of_mem entry hentry')
      · obtain rfl := List.mem_singleton.mp hn
        exact hless entry' hentry'
    rw [hset, List.append_assoc] at hnext
    exact hnext

/-- The entries are in the order of their keys. -/
theorem sorted_entries (m : OrderedMap κ β) : m.entries.Pairwise fun a b ↦ a.1 < b.1 :=
  List.pairwise_map.mpr m.sorted

end OrderedMap

end Library
