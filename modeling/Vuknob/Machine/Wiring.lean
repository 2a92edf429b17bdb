import Mathlib.Data.Finset.Card
import Vuknob.Machine.Space

/-!
# Wirings

The part of a machine space that records connections, as total functions: the heads of
the input lists, the pointers that thread them (`src_jni/signal.cc:903–950`), and the two
kinds of use counts. `Wired` says what all of it is for: every destination keeps one list
of signals per input, and everything else can be read off these lists. A connection is
made and undone by one operation each, and both keep a wiring wired.
-/

namespace Vuknob

/-- The recorded connections as total functions: `head d i` and `depend d m` belong to machine `d`,
`attached s d` to signal `s`, and the pointers to the lists of `d`. -/
@[ext]
structure Wiring where
  head : MachineId → StdString → Option SignalId
  output : MachineId → StdString → Option SignalId
  depend : MachineId → MachineId → Option Int
  next : MachineId → SignalId → Option SignalId
  previous : MachineId → SignalId → Option SignalId
  attached : SignalId → MachineId → Option Int
  origin : SignalId → MachineId
  name : SignalId → StdString
  count : Nat

/-- A connection: the destination, its input, and the signal. -/
abbrev Connection := MachineId × StdString × SignalId

/-- The signals on the input lists of every machine. -/
abbrev Lists := MachineId → StdString → List SignalId

namespace Wiring

/-! ### Counts -/

/-- The value of a map of counts after one more use. -/
def up (c : Option Int) : Option Int := some (c.getD 0 + 1)

/-- The value of a map of counts after one use less. -/
def down (c : Option Int) : Option Int :=
  match c with
  | none => none
  | some c => if c - 1 = 0 then none else some (c - 1)

/-- How a map of counts records `n` uses: no entry stands for zero. -/
def tally (n : Nat) : Option Int := if n = 0 then none else some n

theorem up_tally (n : Nat) : up (tally n) = tally (n + 1) := by
  unfold up tally
  split
  · next h => simp [h]
  · simp

theorem tally_eq_none_iff (n : Nat) : tally n = none ↔ n = 0 := by
  unfold tally
  split <;> simp_all

theorem tally_eq_some_one_iff (n : Nat) : tally n = some 1 ↔ n = 1 := by
  unfold tally
  split
  · next h => simp [h]
  · simp only [Option.some.injEq]
    omega

theorem down_tally (n : Nat) : down (tally (n + 1)) = tally n := by
  unfold down tally
  by_cases h : n = 0
  · simp [h]
  · simp [h]

/-! ### Making and undoing a connection -/

/-- The list of input `i` of `d` starts at `h`. -/
def setHead (w : Wiring) (d : MachineId) (i : StdString) (h : Option SignalId) : Wiring :=
  { w with head := Function.update w.head d (Function.update (w.head d) i h) }

/-- Put `s` behind the signal `h` of a list of `d`. -/
def link (w : Wiring) (d : MachineId) (h s : SignalId) : Wiring :=
  { w with
    next := Function.update w.next d fun a ↦
      if a = h then some s else if a = s then w.next d h else w.next d a
    previous := Function.update w.previous d fun a ↦
      if a = s then some h else if w.next d h = some a then some s else w.previous d a }

/-- Take `s` out of its list of `d`. -/
def unlink (w : Wiring) (d : MachineId) (s : SignalId) : Wiring :=
  { w with
    next := Function.update w.next d fun a ↦
      if a = s then none else if w.previous d s = some a then w.next d s else w.next d a
    previous := Function.update w.previous d fun a ↦
      if a = s then none else if w.next d s = some a then w.previous d s else w.previous d a }

/-- Put a new count for the uses of signal `s` by `d`. -/
def countAttached (w : Wiring) (d : MachineId) (s : SignalId) (f : Option Int → Option Int) :
    Wiring :=
  { w with
    attached := Function.update w.attached s
      (Function.update (w.attached s) d (f (w.attached s d))) }

/-- Put a new count for the uses of machine `m` by `d`. -/
def countDepend (w : Wiring) (d m : MachineId) (f : Option Int → Option Int) : Wiring :=
  { w with
    depend := Function.update w.depend d (Function.update (w.depend d) m (f (w.depend d m))) }

/-- Put new counts for the uses of `s` and of its machine by `d`. -/
def recount (w : Wiring) (d : MachineId) (s : SignalId) (f : Option Int → Option Int) : Wiring :=
  (w.countAttached d s f).countDepend d (w.origin s) f

@[simp] theorem head_recount (w : Wiring) (d : MachineId) (s : SignalId)
    (f : Option Int → Option Int) : (w.recount d s f).head = w.head := rfl

@[simp] theorem next_recount (w : Wiring) (d : MachineId) (s : SignalId)
    (f : Option Int → Option Int) : (w.recount d s f).next = w.next := rfl

@[simp] theorem previous_recount (w : Wiring) (d : MachineId) (s : SignalId)
    (f : Option Int → Option Int) : (w.recount d s f).previous = w.previous := rfl

theorem head_setHead (w : Wiring) (d e : MachineId) (i j : StdString) (h : Option SignalId) :
    (w.setHead d i h).head e j = if e = d ∧ j = i then h else w.head e j := by
  by_cases he : e = d
  · subst he
    simp only [setHead, Function.update_self, Function.update_apply, true_and]
  · simp only [setHead, Function.update_of_ne he, if_neg fun hc : e = d ∧ j = i ↦ he hc.1]

/-- Put `s` on the list of input `i` of `d`. -/
def place (w : Wiring) (d : MachineId) (i : StdString) (s : SignalId) : Wiring :=
  match w.head d i with
  | none => w.setHead d i (some s)
  | some h => w.link d h s

/-- Connect `s` to input `i` of `d`. -/
def connect (w : Wiring) (d : MachineId) (i : StdString) (s : SignalId) : Wiring :=
  (w.place d i s).recount d s up

/-- Disconnect `s` from input `i` of `d`. -/
def disconnect (w : Wiring) (d : MachineId) (i : StdString) (s : SignalId) : Wiring :=
  recount ((w.setHead d i (if w.head d i = some s then w.next d s else w.head d i)).unlink d s)
    d s down

/-- There is room for `s` on input `i` of `d`: an empty input takes a signal without
neighbours; another input takes a signal that `d` has nowhere attached, provided that its
first signal is attached to it alone. -/
def Room (w : Wiring) (d : MachineId) (i : StdString) (s : SignalId) : Prop :=
  match w.head d i with
  | none => w.next d s = none ∧ w.previous d s = none
  | some k => w.attached s d = none ∧ w.attached k d = some 1

end Wiring

namespace Lists

/-- Replace the list of input `i` of `d`. -/
def put (lists : Lists) (d : MachineId) (i : StdString) (l : List SignalId) : Lists :=
  Function.update lists d (Function.update (lists d) i l)

@[simp] theorem put_same (lists : Lists) (d : MachineId) (i : StdString) (l : List SignalId) :
    lists.put d i l d i = l := by simp [put]

theorem put_other (lists : Lists) {d e : MachineId} {i j : StdString} (l : List SignalId)
    (h : ¬ (e = d ∧ j = i)) : lists.put d i l e j = lists e j := by
  by_cases he : e = d
  · subst he
    have hj : j ≠ i := fun hj ↦ h ⟨rfl, hj⟩
    simp [put, hj]
  · simp [put, he]

/-- A new signal becomes the second of its list, or the first of an empty one. -/
def insertSecond (s : SignalId) : List SignalId → List SignalId
  | [] => [s]
  | h :: t => h :: s :: t

theorem mem_insertSecond {s a : SignalId} {l : List SignalId} :
    a ∈ insertSecond s l ↔ a = s ∨ a ∈ l := by
  cases l with
  | nil => simp [insertSecond]
  | cons h t =>
    simp only [insertSecond, List.mem_cons]
    tauto

/-- The lists once `s` is connected to input `i` of `d`. -/
def connect (lists : Lists) (d : MachineId) (i : StdString) (s : SignalId) : Lists :=
  lists.put d i (insertSecond s (lists d i))

/-- The lists once `s` is disconnected from input `i` of `d`. -/
def disconnect (lists : Lists) (d : MachineId) (i : StdString) (s : SignalId) : Lists :=
  lists.put d i ((lists d i).erase s)

theorem connect_other (lists : Lists) {d e : MachineId} {i j : StdString} (s : SignalId)
    (h : ¬ (e = d ∧ j = i)) : lists.connect d i s e j = lists e j :=
  put_other lists _ h

theorem disconnect_other (lists : Lists) {d e : MachineId} {i j : StdString} (s : SignalId)
    (h : ¬ (e = d ∧ j = i)) : lists.disconnect d i s e j = lists e j :=
  put_other lists _ h

theorem mem_connect {lists : Lists} {d e : MachineId} {i j : StdString} {s a : SignalId} :
    a ∈ lists.connect d i s e j ↔ (e = d ∧ j = i ∧ a = s) ∨ a ∈ lists e j := by
  by_cases h : e = d ∧ j = i
  · obtain ⟨rfl, rfl⟩ := h
    simp [connect, mem_insertSecond]
  · rw [connect_other lists s h]
    tauto

theorem mem_disconnect {lists : Lists} {d e : MachineId} {i j : StdString} {s a : SignalId}
    (hn : (lists d i).Nodup) :
    a ∈ lists.disconnect d i s e j ↔ a ∈ lists e j ∧ ¬ (e = d ∧ j = i ∧ a = s) := by
  by_cases h : e = d ∧ j = i
  · obtain ⟨rfl, rfl⟩ := h
    simp [disconnect, hn.mem_erase_iff, and_comm]
  · rw [disconnect_other lists s h]
    tauto

theorem disconnect_sublist (lists : Lists) {d e : MachineId} {i j : StdString} (s : SignalId) :
    (lists.disconnect d i s e j).Sublist (lists e j) := by
  by_cases h : e = d ∧ j = i
  · obtain ⟨rfl, rfl⟩ := h
    rw [disconnect, put_same]
    exact List.erase_sublist
  · rw [disconnect_other lists s h]

end Lists

/-- The wiring is in order: it holds the input lists `lists`, which record the connections
`conns`, and every other part of it agrees with them. The pointers of a signal are per
destination, so a signal on two lists of a destination must stand alone on both. -/
structure Wired (w : Wiring) (lists : Lists) (conns : Finset Connection) : Prop where
  linked : ∀ d i, Library.DList (w.next d) (w.previous d) none (lists d i)
  head : ∀ d i, w.head d i = (lists d i).head?
  mem : ∀ d i s, (d, i, s) ∈ conns ↔ s ∈ lists d i
  alone : ∀ d i j s, s ∈ lists d i → s ∈ lists d j → i ≠ j → lists d i = [s]
  loose : ∀ d s, (∀ i, s ∉ lists d i) → w.next d s = none ∧ w.previous d s = none
  attached : ∀ d s,
    w.attached s d = Wiring.tally (conns.filter fun c ↦ c.1 = d ∧ c.2.2 = s).card
  depend : ∀ d m,
    w.depend d m = Wiring.tally (conns.filter fun c ↦ c.1 = d ∧ w.origin c.2.2 = m).card
  source : ∀ d i s, s ∈ lists d i → w.output (w.origin s) (w.name s) = some s
  owner : ∀ m o s, w.output m o = some s → w.origin s = m ∧ w.name s = o ∧ s < w.count

namespace Wired

variable {w : Wiring} {lists : Lists} {conns : Finset Connection}

theorem nodup (h : Wired w lists conns) (d : MachineId) (i : StdString) : (lists d i).Nodup :=
  (h.linked d i).isList.nodup

/-- A signal that `d` does not count as attached is on none of its lists. -/
theorem not_mem_of_attached (h : Wired w lists conns) {d : MachineId} {s : SignalId}
    (ha : w.attached s d = none) (i : StdString) : s ∉ lists d i := by
  intro hs
  rw [h.attached, Wiring.tally_eq_none_iff, Finset.card_eq_zero] at ha
  have hc : (d, i, s) ∈ conns.filter fun c ↦ c.1 = d ∧ c.2.2 = s := by
    simp [(h.mem d i s).mpr hs]
  simp [ha] at hc

/-- A signal that `d` counts once is on one of its lists only. -/
theorem unique_of_attached (h : Wired w lists conns) {d : MachineId} {s : SignalId}
    (ha : w.attached s d = some 1) {i j : StdString} (hi : s ∈ lists d i)
    (hj : s ∈ lists d j) : i = j := by
  rw [h.attached, Wiring.tally_eq_some_one_iff, Finset.card_eq_one] at ha
  obtain ⟨c, hc⟩ := ha
  have hmem : ∀ k, s ∈ lists d k → (d, k, s) = c := by
    intro k hk
    rw [← Finset.mem_singleton, ← hc]
    simp [(h.mem d k s).mpr hk]
  have := (hmem i hi).trans (hmem j hj).symm
  simpa using this

/-- The neighbours of a listed signal are on the same list. -/
theorem next_mem (h : Wired w lists conns) {d : MachineId} {i : StdString} {s a : SignalId}
    (hs : s ∈ lists d i) (ha : w.next d s = some a) : a ∈ lists d i := by
  obtain ⟨l1, l2, hl⟩ := List.append_of_mem hs
  have hd := h.linked d i
  rw [hl] at hd ⊢
  rw [hd.next_eq] at ha
  simp [List.mem_of_mem_head? ha]

theorem previous_mem (h : Wired w lists conns) {d : MachineId} {i : StdString}
    {s a : SignalId} (hs : s ∈ lists d i) (ha : w.previous d s = some a) : a ∈ lists d i := by
  obtain ⟨l1, l2, hl⟩ := List.append_of_mem hs
  have hd := h.linked d i
  rw [hl] at hd ⊢
  rw [hd.prev_eq, Option.or_none] at ha
  simp [List.mem_of_getLast? ha]

/-- A listed signal without neighbours is the whole list. -/
theorem eq_singleton (h : Wired w lists conns) {d : MachineId} {i : StdString} {s : SignalId}
    (hs : s ∈ lists d i) (hn : w.next d s = none) (hp : w.previous d s = none) :
    lists d i = [s] := by
  obtain ⟨l1, l2, hl⟩ := List.append_of_mem hs
  have hd := h.linked d i
  rw [hl] at hd
  rw [hd.next_eq, List.head?_eq_none_iff] at hn
  rw [hd.prev_eq, Option.or_none, List.getLast?_eq_none_iff] at hp
  simp [hl, hn, hp]

theorem lt_count (h : Wired w lists conns) {d : MachineId} {i : StdString} {s : SignalId}
    (hs : s ∈ lists d i) : s < w.count :=
  (h.owner _ _ s (h.source d i s hs)).2.2

/-- Lists are no longer than there are signals. -/
theorem length_le (h : Wired w lists conns) (d : MachineId) (i : StdString) :
    (lists d i).length ≤ w.count := by
  rw [← List.length_range (n := w.count)]
  apply (List.subperm_of_subset (h.nodup d i) _).length_le
  exact fun s hs ↦ List.mem_range.mpr (h.lt_count hs)

/-! ### Counting -/

private theorem card_filter_insert {conns : Finset Connection} {c : Connection} (hc : c ∉ conns)
    (p : Connection → Prop) [DecidablePred p] :
    ((insert c conns).filter p).card =
      if p c then (conns.filter p).card + 1 else (conns.filter p).card := by
  rw [Finset.filter_insert]
  split
  · rw [Finset.card_insert_of_notMem fun h ↦ hc (Finset.mem_filter.mp h).1]
  · rfl

private theorem card_filter_erase {conns : Finset Connection} {c : Connection} (hc : c ∈ conns)
    (p : Connection → Prop) [DecidablePred p] :
    (conns.filter p).card =
      if p c then ((conns.erase c).filter p).card + 1 else ((conns.erase c).filter p).card := by
  rw [← card_filter_insert (Finset.notMem_erase c conns) p, Finset.insert_erase hc]

private theorem attached_recount (w : Wiring) (d e : MachineId) (s a : SignalId)
    (f : Option Int → Option Int) :
    (w.recount d s f).attached a e =
      if d = e ∧ s = a then f (w.attached a e) else w.attached a e := by
  by_cases ha : s = a
  · subst ha
    by_cases he : d = e
    · subst he
      simp [Wiring.recount, Wiring.countAttached, Wiring.countDepend]
    · simp [Wiring.recount, Wiring.countAttached, Wiring.countDepend, he, Ne.symm he]
  · simp [Wiring.recount, Wiring.countAttached, Wiring.countDepend, ha, Ne.symm ha]

private theorem depend_recount (w : Wiring) (d e m : MachineId) (s : SignalId)
    (f : Option Int → Option Int) :
    (w.recount d s f).depend e m =
      if d = e ∧ w.origin s = m then f (w.depend e m) else w.depend e m := by
  by_cases he : d = e
  · subst he
    by_cases hm : w.origin s = m
    · subst hm
      simp [Wiring.recount, Wiring.countAttached, Wiring.countDepend]
    · simp [Wiring.recount, Wiring.countAttached, Wiring.countDepend, hm, Ne.symm hm]
  · simp [Wiring.recount, Wiring.countAttached, Wiring.countDepend, he, Ne.symm he]

/-- The counts follow when a connection is added or taken away. -/
private theorem tally_insert {conns : Finset Connection} {c : Connection} (hc : c ∉ conns)
    (p : Connection → Prop) [DecidablePred p] :
    Wiring.tally ((insert c conns).filter p).card =
      if p c then Wiring.up (Wiring.tally (conns.filter p).card)
      else Wiring.tally (conns.filter p).card := by
  rw [card_filter_insert hc]
  split
  · rw [Wiring.up_tally]
  · rfl

private theorem tally_erase {conns : Finset Connection} {c : Connection} (hc : c ∈ conns)
    (p : Connection → Prop) [DecidablePred p] :
    Wiring.tally ((conns.erase c).filter p).card =
      if p c then Wiring.down (Wiring.tally (conns.filter p).card)
      else Wiring.tally (conns.filter p).card := by
  rw [card_filter_erase hc p]
  split
  · rw [Wiring.down_tally]
  · rfl

/-! ### Connecting -/

/-- Where a new signal goes behind the head `k`, its list shares no signal with others. -/
private theorem unshared (h : Wired w lists conns) {d : MachineId} {i : StdString}
    {k : SignalId} (hk : w.head d i = some k) (ha : w.attached k d = some 1)
    {j : StdString} (hj : j ≠ i) (a : SignalId) (hai : a ∈ lists d i) : a ∉ lists d j := by
  intro haj
  have hki : k ∈ lists d i := List.mem_of_mem_head? ((h.head d i).symm.trans hk)
  have hsingle := h.alone d i j a hai haj (Ne.symm hj)
  rw [hsingle, List.mem_singleton] at hki
  exact hj (h.unique_of_attached ha (hki ▸ haj) (hki ▸ hai))

private theorem linked_link (h : Wired w lists conns) {d : MachineId} {i : StdString}
    {s k : SignalId} (hs : ∀ j, s ∉ lists d j) (hk : w.head d i = some k)
    (ha : w.attached k d = some 1) (j : StdString) :
    Library.DList ((w.link d k s).next d) ((w.link d k s).previous d) none
      (lists.connect d i s d j) := by
  obtain ⟨t, ht⟩ : ∃ t, lists d i = k :: t :=
    List.head?_eq_some_iff.mp ((h.head d i).symm.trans hk)
  have hki : k ∈ lists d i := by simp [ht]
  have hks : s ≠ k := fun heq ↦ hs i (heq ▸ hki)
  have hnext : ∀ a, (w.link d k s).next d a =
      if a = k then some s else if a = s then w.next d k else w.next d a := fun a ↦ by
    simp [Wiring.link]
  have hprev : ∀ a, (w.link d k s).previous d a =
      if a = s then some k else if w.next d k = some a then some s else w.previous d a :=
    fun a ↦ by simp [Wiring.link]
  by_cases hj : j = i
  · subst hj
    have hd := h.linked d j
    have hn := h.nodup d j
    rw [ht] at hd hn
    have hkt : k ∉ t := (List.nodup_cons.mp hn).1
    have hst : s ∉ t := fun hm ↦ hs j (by simp [ht, hm])
    simp only [Lists.connect, Lists.put_same, ht, Lists.insertSecond]
    apply hd.insert_second (List.nodup_cons.mp hn).2
    · simp [hnext]
    · simp [hnext, hks]
    · intro a ha
      have hak : a ≠ k := fun heq ↦ hkt (heq ▸ ha)
      have has : a ≠ s := fun heq ↦ hst (heq ▸ ha)
      simp [hnext, hak, has]
    · have hloop : w.next d k ≠ some k := by
        intro heq
        rw [hd.2.1] at heq
        exact hkt (List.mem_of_mem_head? heq)
      simp [hprev, Ne.symm hks, hloop]
    · simp [hprev]
    · intro a ha
      have has : a ≠ s := fun heq ↦ hst (heq ▸ ha)
      simp [hprev, has]
  · rw [Lists.connect_other lists s fun hc ↦ hj hc.2]
    have hout : ∀ a ∈ lists d j, a ∉ lists d i := fun a haj hai ↦
      h.unshared hk ha hj a hai haj
    have hne : ∀ a ∈ lists d j, a ≠ k ∧ a ≠ s ∧ w.next d k ≠ some a := fun a haj ↦
      ⟨fun heq ↦ hout a haj (heq ▸ hki), fun heq ↦ hs j (heq ▸ haj),
        fun heq ↦ hout a haj (h.next_mem hki heq)⟩
    apply (h.linked d j).congr
    · intro a haj
      simp [hnext, (hne a haj).1, (hne a haj).2.1]
    · intro a hhead
      have hm := List.mem_of_mem_head? hhead
      have hd := h.linked d j
      obtain ⟨t', ht'⟩ := List.head?_eq_some_iff.mp hhead
      rw [ht'] at hd
      simp [hprev, (hne a hm).2.1, (hne a hm).2.2, hd.1]
    · intro a htail
      have hm := List.mem_of_mem_tail htail
      simp [hprev, (hne a hm).2.1, (hne a hm).2.2]

private theorem linked_connect (h : Wired w lists conns) {d : MachineId} {i : StdString}
    {s : SignalId} (hr : w.Room d i s) (e : MachineId) (j : StdString) :
    Library.DList ((w.connect d i s).next e) ((w.connect d i s).previous e) none
      (lists.connect d i s e j) := by
  unfold Wiring.Room at hr
  unfold Wiring.connect Wiring.place
  cases hh : w.head d i with
  | none =>
    rw [hh] at hr
    obtain ⟨hn, hp⟩ := hr
    change Library.DList (w.next e) (w.previous e) none _
    by_cases he : e = d ∧ j = i
    · obtain ⟨rfl, rfl⟩ := he
      have hnil : lists e j = [] := List.head?_eq_none_iff.mp ((h.head e j).symm.trans hh)
      simp only [Lists.connect, Lists.put_same, hnil, Lists.insertSecond]
      exact ⟨hp, hn, trivial⟩
    · rw [Lists.connect_other lists s he]
      exact h.linked e j
  | some k =>
    rw [hh] at hr
    obtain ⟨hs, hk⟩ := hr
    by_cases he : e = d
    · subst he
      exact h.linked_link (h.not_mem_of_attached hs) hh hk j
    · have hn : (w.link d k s).next e = w.next e ∧ (w.link d k s).previous e = w.previous e := by
        simp [Wiring.link, he]
      change Library.DList ((w.link d k s).next e) ((w.link d k s).previous e) none _
      rw [hn.1, hn.2, Lists.connect_other lists s fun hc ↦ he hc.1]
      exact h.linked e j

private theorem head_connect (h : Wired w lists conns) {d : MachineId} {i : StdString}
    {s : SignalId} (e : MachineId) (j : StdString) :
    (w.connect d i s).head e j = (lists.connect d i s e j).head? := by
  have hlist := h.head d i
  unfold Wiring.connect Wiring.place
  cases hh : w.head d i with
  | none =>
    rw [hh] at hlist
    by_cases he : e = d ∧ j = i
    · obtain ⟨rfl, rfl⟩ := he
      simp [Wiring.head_setHead, Lists.connect, List.head?_eq_none_iff.mp hlist.symm,
        Lists.insertSecond]
    · rw [Lists.connect_other lists s he, ← h.head e j]
      simp only [Wiring.head_recount, Wiring.head_setHead, if_neg he]
  | some k =>
    change w.head e j = _
    by_cases he : e = d ∧ j = i
    · obtain ⟨rfl, rfl⟩ := he
      rw [hh] at hlist
      obtain ⟨t, ht⟩ := List.head?_eq_some_iff.mp hlist.symm
      simp [hh, Lists.connect, ht, Lists.insertSecond]
    · rw [Lists.connect_other lists s he, h.head e j]

private theorem loose_connect (h : Wired w lists conns) {d : MachineId} {i : StdString}
    {s : SignalId} (e : MachineId) (a : SignalId) (ha : ∀ j, a ∉ lists.connect d i s e j) :
    (w.connect d i s).next e a = none ∧ (w.connect d i s).previous e a = none := by
  have hold : ∀ j, a ∉ lists e j := fun j hj ↦ ha j (Lists.mem_connect.mpr (.inr hj))
  have hne : ¬ (e = d ∧ a = s) := fun hc ↦
    ha i (Lists.mem_connect.mpr (.inl ⟨hc.1, rfl, hc.2⟩))
  obtain ⟨hnext, hprev⟩ := h.loose e a hold
  unfold Wiring.connect Wiring.place
  cases hh : w.head d i with
  | none => exact ⟨hnext, hprev⟩
  | some k =>
    by_cases he : e = d
    · subst he
      -- Only the signals of the list and the new one have their pointers changed.
      have has : a ≠ s := fun heq ↦ hne ⟨rfl, heq⟩
      have hk : k ∈ lists e i := List.mem_of_mem_head? ((h.head e i).symm.trans hh)
      have hak : a ≠ k := fun heq ↦ hold i (heq ▸ hk)
      have hnk : w.next e k ≠ some a := fun heq ↦ hold i (h.next_mem hk heq)
      simp [Wiring.link, has, hak, hnk, hnext, hprev]
    · simp [Wiring.link, he, hnext, hprev]

private theorem alone_connect (h : Wired w lists conns) {d : MachineId} {i : StdString}
    {s : SignalId} (hr : w.Room d i s) (e : MachineId) (j k : StdString) (a : SignalId)
    (hj : a ∈ lists.connect d i s e j) (hk : a ∈ lists.connect d i s e k) (hjk : j ≠ k) :
    lists.connect d i s e j = [a] := by
  unfold Wiring.Room at hr
  by_cases he : e = d ∧ (j = i ∨ k = i)
  · obtain ⟨rfl, hi⟩ := he
    cases hh : w.head e i with
    | none =>
      -- The input was empty, so only `s` is on it, and `s` has no neighbours elsewhere.
      rw [hh] at hr
      have hnil : lists e i = [] := List.head?_eq_none_iff.mp ((h.head e i).symm.trans hh)
      have hput : lists.connect e i s e i = [s] := by
        simp [Lists.connect, hnil, Lists.insertSecond]
      rcases hi with rfl | rfl
      · rw [hput, List.mem_singleton] at hj
        rw [hput, hj]
      · rw [hput, List.mem_singleton] at hk
        subst hk
        rw [Lists.connect_other lists a fun hc ↦ hjk hc.2] at hj ⊢
        exact h.eq_singleton hj hr.1 hr.2
    | some m =>
      rw [hh] at hr
      exfalso
      have hs := h.not_mem_of_attached hr.1
      have hun := fun {j} hj a ↦ h.unshared (j := j) hh hr.2 hj a
      rcases hi with rfl | rfl
      · rw [Lists.connect_other lists s fun hc ↦ hjk hc.2.symm] at hk
        rcases Lists.mem_connect.mp hj with ⟨_, _, rfl⟩ | hj
        · exact hs k hk
        · exact hun (Ne.symm hjk) a hj hk
      · rw [Lists.connect_other lists s fun hc ↦ hjk hc.2] at hj
        rcases Lists.mem_connect.mp hk with ⟨_, _, rfl⟩ | hk
        · exact hs j hj
        · exact hun hjk a hk hj
  · rw [Lists.connect_other lists s fun hc ↦ he ⟨hc.1, .inl hc.2⟩] at hj ⊢
    rw [Lists.connect_other lists s fun hc ↦ he ⟨hc.1, .inr hc.2⟩] at hk
    exact h.alone e j k a hj hk hjk

/-- What the rest of a wiring is after a connection. -/
private theorem connect_rest (w : Wiring) (d : MachineId) (i : StdString) (s : SignalId) :
    (w.connect d i s).attached = (w.recount d s Wiring.up).attached ∧
      (w.connect d i s).depend = (w.recount d s Wiring.up).depend ∧
      (w.connect d i s).output = w.output ∧ (w.connect d i s).origin = w.origin ∧
      (w.connect d i s).name = w.name ∧ (w.connect d i s).count = w.count := by
  unfold Wiring.connect Wiring.place
  cases w.head d i <;> exact ⟨rfl, rfl, rfl, rfl, rfl, rfl⟩

/-- A signal that finds room on an input is not there yet. -/
theorem not_mem_of_room (h : Wired w lists conns) {d : MachineId} {i : StdString}
    {s : SignalId} (hr : w.Room d i s) : s ∉ lists d i := by
  unfold Wiring.Room at hr
  cases hh : w.head d i with
  | none => simp [List.head?_eq_none_iff.mp ((h.head d i).symm.trans hh)]
  | some k =>
    rw [hh] at hr
    exact h.not_mem_of_attached hr.1 i

/-- Connecting an output where there is room for it keeps a wiring in order. -/
theorem connect (h : Wired w lists conns) {d m : MachineId} {i o : StdString} {s : SignalId}
    (hr : w.Room d i s) (ho : w.output m o = some s) :
    Wired (w.connect d i s) (lists.connect d i s) (insert (d, i, s) conns) := by
  obtain ⟨hat, hdep, hout, horg, hname, hcount⟩ := connect_rest w d i s
  have hnew : (d, i, s) ∉ conns := fun hc ↦ h.not_mem_of_room hr ((h.mem d i s).mp hc)
  refine ⟨h.linked_connect hr, h.head_connect, ?_, h.alone_connect hr, h.loose_connect, ?_, ?_,
    ?_, ?_⟩
  · intro e j a
    rw [Finset.mem_insert, Lists.mem_connect, h.mem]
    simp
  · intro e a
    rw [hat, attached_recount, tally_insert hnew, h.attached]
  · intro e m'
    rw [hdep, horg, depend_recount, tally_insert hnew, h.depend]
  · intro e j a ha
    rw [hout, horg, hname]
    rcases Lists.mem_connect.mp ha with ⟨_, _, rfl⟩ | ha
    · obtain ⟨hm, hn, _⟩ := h.owner m o a ho
      rw [hm, hn, ho]
    · exact h.source e j a ha
  · intro m' o' a ha
    rw [horg, hname, hcount]
    exact h.owner m' o' a (hout ▸ ha)

/-! ### Disconnecting -/

private theorem next_disconnect (w : Wiring) (d : MachineId) (i : StdString) (s a : SignalId)
    (e : MachineId) : (w.disconnect d i s).next e a =
      if e = d then if a = s then none else if w.previous d s = some a then w.next d s
        else w.next d a
      else w.next e a := by
  by_cases he : e = d
  · subst he
    simp only [Wiring.disconnect, Wiring.next_recount, Wiring.unlink, Function.update_self, if_true]
    rfl
  · simp [Wiring.disconnect, Wiring.unlink, Wiring.setHead, he]

private theorem previous_disconnect (w : Wiring) (d : MachineId) (i : StdString)
    (s a : SignalId) (e : MachineId) : (w.disconnect d i s).previous e a =
      if e = d then if a = s then none else if w.next d s = some a then w.previous d s
        else w.previous d a
      else w.previous e a := by
  by_cases he : e = d
  · subst he
    simp only [Wiring.disconnect, Wiring.previous_recount, Wiring.unlink, Function.update_self,
      if_true]
    rfl
  · simp [Wiring.disconnect, Wiring.unlink, Wiring.setHead, he]

/-- A signal other than `s` on another list is no neighbour of `s`. -/
private theorem not_neighbour (h : Wired w lists conns) {d : MachineId} {i j : StdString}
    {s a : SignalId} (hs : s ∈ lists d i) (ha : a ∈ lists d j) (hj : j ≠ i) (has : a ≠ s) :
    w.previous d s ≠ some a ∧ w.next d s ≠ some a := by
  have hout : a ∉ lists d i := by
    intro hai
    have hsingle := h.alone d i j a hai ha (Ne.symm hj)
    rw [hsingle, List.mem_singleton] at hs
    exact has hs.symm
  exact ⟨fun heq ↦ hout (h.previous_mem hs heq), fun heq ↦ hout (h.next_mem hs heq)⟩

private theorem linked_disconnect (h : Wired w lists conns) {d : MachineId} {i : StdString}
    {s : SignalId} (hs : s ∈ lists d i) (e : MachineId) (j : StdString) :
    Library.DList ((w.disconnect d i s).next e) ((w.disconnect d i s).previous e) none
      (lists.disconnect d i s e j) := by
  by_cases he : e = d
  · subst he
    by_cases hj : j = i
    · subst hj
      have hd := h.linked e j
      have hn := h.nodup e j
      obtain ⟨l1, l2, hl⟩ := List.append_of_mem hs
      rw [hl] at hd hn
      have hs1 : s ∉ l1 := fun hm ↦ (List.nodup_append.mp hn).2.2 s hm s (by simp) rfl
      have herase : (lists e j).erase s = l1 ++ l2 := by
        rw [hl, List.erase_append_right _ hs1, List.erase_cons_head]
      rw [Lists.disconnect, Lists.put_same, herase]
      apply hd.unlink hn (by simp)
      · intro a ha
        simp [next_disconnect, ha]
      · intro a ha
        simp [previous_disconnect, ha]
    · rw [Lists.disconnect_other lists s fun hc ↦ hj hc.2]
      by_cases hsj : s ∈ lists e j
      · -- A signal on both lists is alone on them.
        rw [h.alone e j i s hsj hs hj]
        exact ⟨by simp [previous_disconnect], by simp [next_disconnect], trivial⟩
      · have hne : ∀ a ∈ lists e j, a ≠ s := fun a ha heq ↦ hsj (heq ▸ ha)
        have hnb := fun a ha ↦ h.not_neighbour hs (a := a) ha hj (hne a ha)
        apply (h.linked e j).congr
        · intro a ha
          simp [next_disconnect, hne a ha, (hnb a ha).1]
        · intro a ha
          have hm := List.mem_of_mem_head? ha
          have hd := h.linked e j
          obtain ⟨t, ht⟩ := List.head?_eq_some_iff.mp ha
          rw [ht] at hd
          simp [previous_disconnect, hne a hm, (hnb a hm).2, hd.1]
        · intro a ha
          have hm := List.mem_of_mem_tail ha
          simp [previous_disconnect, hne a hm, (hnb a hm).2]
  · rw [Lists.disconnect_other lists s fun hc ↦ he hc.1]
    have hn : (w.disconnect d i s).next e = w.next e := by
      funext a
      simp [next_disconnect, he]
    have hp : (w.disconnect d i s).previous e = w.previous e := by
      funext a
      simp [previous_disconnect, he]
    rw [hn, hp]
    exact h.linked e j

private theorem head_disconnect (h : Wired w lists conns) {d : MachineId} {i : StdString}
    {s : SignalId} (hs : s ∈ lists d i) (e : MachineId) (j : StdString) :
    (w.disconnect d i s).head e j = (lists.disconnect d i s e j).head? := by
  have hhead : (w.disconnect d i s).head e j =
      if e = d ∧ j = i then if w.head d i = some s then w.next d s else w.head d i
        else w.head e j := by
    rw [Wiring.disconnect, Wiring.head_recount, Wiring.unlink, Wiring.head_setHead]
  by_cases he : e = d ∧ j = i
  · obtain ⟨rfl, rfl⟩ := he
    have hd := h.linked e j
    rw [hhead, if_pos ⟨rfl, rfl⟩, Lists.disconnect, Lists.put_same, h.head e j]
    cases hl : lists e j with
    | nil => simp [hl] at hs
    | cons k t =>
      rw [hl] at hd
      by_cases hk : k = s
      · subst hk
        simp [hd.2.1]
      · simp [hk]
  · rw [Lists.disconnect_other lists s he, ← h.head e j, hhead, if_neg he]

private theorem loose_disconnect (h : Wired w lists conns) {d : MachineId} {i : StdString}
    {s : SignalId} (hs : s ∈ lists d i) (e : MachineId) (a : SignalId)
    (ha : ∀ j, a ∉ lists.disconnect d i s e j) :
    (w.disconnect d i s).next e a = none ∧ (w.disconnect d i s).previous e a = none := by
  rw [next_disconnect, previous_disconnect]
  by_cases he : e = d
  · subst he
    by_cases has : a = s
    · simp [has]
    · have hold : ∀ j, a ∉ lists e j := fun j hj ↦
        ha j ((Lists.mem_disconnect (h.nodup e i)).mpr ⟨hj, fun hc ↦ has hc.2.2⟩)
      obtain ⟨hn, hp⟩ := h.loose e a hold
      have hns : w.next e s ≠ some a := fun heq ↦ hold i (h.next_mem hs heq)
      have hps : w.previous e s ≠ some a := fun heq ↦ hold i (h.previous_mem hs heq)
      simp [has, hns, hps, hn, hp]
  · have hold : ∀ j, a ∉ lists e j := fun j hj ↦
      ha j ((Lists.mem_disconnect (h.nodup d i)).mpr ⟨hj, fun hc ↦ he hc.1⟩)
    simpa [he] using h.loose e a hold

/-- Disconnecting a listed signal keeps a wiring in order. -/
theorem disconnect (h : Wired w lists conns) {d : MachineId} {i : StdString} {s : SignalId}
    (hs : s ∈ lists d i) :
    Wired (w.disconnect d i s) (lists.disconnect d i s) (conns.erase (d, i, s)) := by
  have hmem : ∀ e j a, a ∈ lists.disconnect d i s e j ↔
      a ∈ lists e j ∧ ¬ (e = d ∧ j = i ∧ a = s) :=
    fun e j a ↦ Lists.mem_disconnect (h.nodup d i)
  have hold : (d, i, s) ∈ conns := (h.mem d i s).mpr hs
  refine ⟨h.linked_disconnect hs, h.head_disconnect hs, ?_, ?_, h.loose_disconnect hs, ?_, ?_,
    ?_, h.owner⟩
  · intro e j a
    rw [Finset.mem_erase, hmem, h.mem]
    simp [and_comm]
  · intro e j k a hj hk hjk
    have hsingle := h.alone e j k a ((hmem e j a).mp hj).1 ((hmem e k a).mp hk).1 hjk
    by_cases he : e = d ∧ j = i
    · obtain ⟨rfl, rfl⟩ := he
      have hne : a ≠ s := fun heq ↦ ((hmem e j a).mp hj).2 ⟨rfl, rfl, heq⟩
      rw [hsingle, List.mem_singleton] at hs
      exact absurd hs.symm hne
    · rw [Lists.disconnect_other lists s he, hsingle]
  · intro e a
    change (w.recount d s Wiring.down).attached a e = _
    rw [attached_recount, tally_erase hold, h.attached]
  · intro e m
    change (w.recount d s Wiring.down).depend e m =
      Wiring.tally ((conns.erase (d, i, s)).filter fun c ↦ c.1 = e ∧ w.origin c.2.2 = m).card
    rw [depend_recount, tally_erase hold, h.depend]
  · exact fun e j a ha ↦ h.source e j a ((hmem e j a).mp ha).1

/-! ### Signals and machines that come and go -/

/-- The wiring of a program that has just started. -/
theorem none_connected (w : Wiring) (hh : ∀ d i, w.head d i = none)
    (ho : ∀ m o, w.output m o = none) (hd : ∀ d m, w.depend d m = none)
    (hn : ∀ d s, w.next d s = none) (hp : ∀ d s, w.previous d s = none)
    (ha : ∀ s d, w.attached s d = none) : Wired w (fun _ _ ↦ []) ∅ where
  linked _ _ := trivial
  head d i := hh d i
  mem d i s := by simp
  alone _ _ _ _ h := by cases h
  loose d s _ := ⟨hn d s, hp d s⟩
  attached d s := by simp [ha, Wiring.tally]
  depend d m := by simp [hd, Wiring.tally]
  source _ _ _ h := by cases h
  owner m o s h := by simp [ho] at h

/-- Signals created at unused addresses: what is known of the old ones stays. -/
theorem extend (h : Wired w lists conns) (w' : Wiring) (hhead : w'.head = w.head)
    (hout : w'.output = w.output) (hdep : w'.depend = w.depend) (hnext : w'.next = w.next)
    (hprev : w'.previous = w.previous) (hatt : w'.attached = w.attached)
    (hcount : w.count ≤ w'.count)
    (hold : ∀ s, s < w.count → w'.origin s = w.origin s ∧ w'.name s = w.name s) :
    Wired w' lists conns where
  linked := by rw [hnext, hprev]; exact h.linked
  head := by rw [hhead]; exact h.head
  mem := h.mem
  alone := h.alone
  loose := by rw [hnext, hprev]; exact h.loose
  attached := by rw [hatt]; exact h.attached
  depend d m := by
    rw [hdep, h.depend]
    congr 2
    apply Finset.filter_congr
    intro c hc
    rw [(hold c.2.2 (h.lt_count ((h.mem c.1 c.2.1 c.2.2).mp hc))).1]
  source d i s hs := by
    obtain ⟨ho, hn⟩ := hold s (h.lt_count hs)
    rw [hout, ho, hn]
    exact h.source d i s hs
  owner m o s hs := by
    obtain ⟨hm, hn, hlt⟩ := h.owner m o s (hout ▸ hs)
    obtain ⟨ho, hn'⟩ := hold s hlt
    exact ⟨ho.trans hm, hn'.trans hn, Nat.lt_of_lt_of_le hlt hcount⟩

/-- A machine `p` appears with outputs of its own. -/
theorem addMachine (h : Wired w lists conns) (p : MachineId)
    (out : StdString → Option SignalId) (hp : ∀ o, w.output p o = none)
    (hout : ∀ o s, out o = some s → w.origin s = p ∧ w.name s = o ∧ s < w.count) :
    Wired { w with output := Function.update w.output p out } lists conns where
  linked := h.linked
  head := h.head
  mem := h.mem
  alone := h.alone
  loose := h.loose
  attached := h.attached
  depend := h.depend
  source d i s hs := by
    have hold := h.source d i s hs
    have hne : w.origin s ≠ p := by
      intro heq
      rw [heq, hp] at hold
      cases hold
    simpa [hne] using hold
  owner m o s hs := by
    by_cases hm : m = p
    · subst hm
      exact hout o s (by simpa using hs)
    · exact h.owner m o s (by simpa [hm] using hs)

/-- A machine `p` with no connections left disappears. -/
theorem removeMachine (h : Wired w lists conns) {p : MachineId} (hin : ∀ i, lists p i = [])
    (hout : ∀ d i s, s ∈ lists d i → w.origin s ≠ p) :
    Wired { w with
      head := Function.update w.head p fun _ ↦ none
      output := Function.update w.output p fun _ ↦ none
      depend := Function.update w.depend p fun _ ↦ none } lists conns where
  linked := h.linked
  head d i := by
    by_cases hd : d = p
    · subst hd
      simp [hin]
    · simpa [hd] using h.head d i
  mem := h.mem
  alone := h.alone
  loose := h.loose
  attached := h.attached
  depend d m := by
    by_cases hd : d = p
    · subst hd
      have hempty : conns.filter (fun c ↦ c.1 = d ∧ w.origin c.2.2 = m) = ∅ := by
        apply Finset.filter_eq_empty_iff.mpr
        rintro ⟨e, i, s⟩ hc ⟨rfl, _⟩
        have hs := (h.mem _ i s).mp hc
        simp [hin] at hs
      simp [hempty, Wiring.tally]
    · simpa [hd] using h.depend d m
  source d i s hs := by
    simpa [hout d i s hs] using h.source d i s hs
  owner m o s hs := by
    by_cases hm : m = p
    · subst hm
      simp at hs
    · exact h.owner m o s (by simpa [hm] using hs)

end Wired
end Vuknob
