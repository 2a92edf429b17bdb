import Mathlib.Data.List.Basic
import Mathlib.Data.List.Nodup

/-!
# Linked lists in a heap

Lists threaded through the nodes of a heap. A node is an address; `deref` reads the
next pointer of a node and fails where no node lives. Loops along next pointers have
explicit fuel: `none` is a read through a dangling pointer or a loop that goes on.
-/

namespace Library

variable {α : Type}

/-! ### Singly linked lists -/

/-- Following next pointers from `head` visits the nodes of the list in order and ends. -/
def IsList (deref : α → Option (Option α)) : Option α → List α → Prop
  | head, [] => head = none
  | head, a :: l => head = some a ∧ ∃ n, deref a = some n ∧ IsList deref n l

/-- Collect the nodes from `head` to the end. -/
def walk (deref : α → Option (Option α)) : Nat → Option α → Option (List α)
  | _, none => some []
  | 0, some _ => none
  | fuel + 1, some a => do
    let n ← deref a
    let l ← walk deref fuel n
    some (a :: l)

/-- Is `target` among the nodes from `head` to the end? -/
def locate [DecidableEq α] (deref : α → Option (Option α)) (target : α) :
    Nat → Option α → Option Bool
  | _, none => some false
  | 0, some _ => none
  | fuel + 1, some a =>
    if a = target then some true
    else do
      let n ← deref a
      locate deref target fuel n

/-- The walk returns exactly the linked lists no longer than the fuel. -/
theorem walk_eq_some_iff (deref : α → Option (Option α)) (fuel : Nat) (head : Option α)
    (l : List α) : walk deref fuel head = some l ↔ IsList deref head l ∧ l.length ≤ fuel := by
  induction fuel generalizing head l with
  | zero => cases head <;> cases l <;> simp [walk, IsList]
  | succ fuel ih =>
    cases head with
    | none => cases l <;> simp [walk, IsList]
    | some a =>
      cases l with
      | nil => simp [walk, IsList, Option.bind_eq_some_iff]
      | cons b l =>
        simp only [walk, Option.bind_eq_bind, Option.bind_eq_some_iff, Option.some.injEq,
          List.cons.injEq, IsList, List.length_cons]
        constructor
        · rintro ⟨n, hn, l', hw, rfl, rfl⟩
          obtain ⟨hl, hle⟩ := (ih n l').mp hw
          exact ⟨⟨rfl, n, hn, hl⟩, by omega⟩
        · rintro ⟨⟨rfl, n, hn, hl⟩, hle⟩
          exact ⟨n, hn, l, (ih n l).mpr ⟨hl, by omega⟩, rfl, rfl⟩

/-- On a linked list within the fuel, `locate` decides membership. -/
theorem locate_eq [DecidableEq α] {deref : α → Option (Option α)} (target : α) {fuel : Nat}
    {head : Option α} {l : List α} (h : IsList deref head l) (hf : l.length ≤ fuel) :
    locate deref target fuel head = some (decide (target ∈ l)) := by
  induction l generalizing fuel head with
  | nil =>
    obtain rfl : head = none := h
    cases fuel <;> simp [locate]
  | cons a l ih =>
    obtain ⟨rfl, n, hn, hl⟩ := h
    cases fuel with
    | zero => simp at hf
    | succ fuel =>
      rw [locate]
      split
      · next ha => simp [ha]
      · next ha =>
        rw [hn, Option.bind_eq_bind, Option.bind_some, ih hl (by simpa using hf)]
        simp [List.mem_cons, Ne.symm ha]

/-- A head determines its list. -/
theorem IsList.unique {deref : α → Option (Option α)} {head : Option α} {l l' : List α}
    (h : IsList deref head l) (h' : IsList deref head l') : l = l' := by
  induction l generalizing head l' with
  | nil =>
    obtain rfl : head = none := h
    cases l' with
    | nil => rfl
    | cons b l' => exact absurd h'.1 (by simp)
  | cons a l ih =>
    obtain ⟨rfl, n, hn, hl⟩ := h
    cases l' with
    | nil => exact absurd h' (by simp [IsList])
    | cons b l' =>
      obtain ⟨hab, n', hn', hl'⟩ := h'
      obtain rfl := Option.some.inj hab
      rw [hn] at hn'
      obtain rfl := Option.some.inj hn'
      rw [ih hl hl']

private theorem IsList.of_append {deref : α → Option (Option α)} {head : Option α}
    {l : List α} {a : α} {l' : List α} (h : IsList deref head (l ++ a :: l')) :
    IsList deref (some a) (a :: l') := by
  induction l generalizing head with
  | nil => exact ⟨rfl, h.2⟩
  | cons b l ih =>
    obtain ⟨_, n, _, hl⟩ := h
    exact ih hl

/-- A list that ends visits no node twice. -/
theorem IsList.nodup {deref : α → Option (Option α)} {head : Option α} {l : List α}
    (h : IsList deref head l) : l.Nodup := by
  induction l generalizing head with
  | nil => exact List.nodup_nil
  | cons a l ih =>
    obtain ⟨rfl, n, hn, hl⟩ := h
    refine List.nodup_cons.mpr ⟨?_, ih hl⟩
    intro hm
    obtain ⟨l1, l2, rfl⟩ := List.append_of_mem hm
    have hlong : IsList deref (some a) (a :: (l1 ++ a :: l2)) := ⟨rfl, n, hn, hl⟩
    have := congrArg List.length (hlong.unique hl.of_append)
    simp at this
    omega

/-- A list depends on the next pointers of its own nodes only. -/
theorem IsList.congr {deref deref' : α → Option (Option α)} {head : Option α} {l : List α}
    (h : IsList deref head l) (he : ∀ a ∈ l, deref' a = deref a) : IsList deref' head l := by
  induction l generalizing head with
  | nil => exact h
  | cons a l ih =>
    obtain ⟨ha, n, hn, hl⟩ := h
    exact ⟨ha, n, by rw [he a (by simp), hn], ih hl fun b hb ↦ he b (by simp [hb])⟩

/-! ### Doubly linked lists -/

/-- The nodes are linked both ways: `p` is what the previous pointer of the first holds,
and the next pointer of the last is null. -/
def DList (next prev : α → Option α) : Option α → List α → Prop
  | _, [] => True
  | p, a :: l => prev a = p ∧ next a = l.head? ∧ DList next prev (some a) l

/-- Forgetting the previous pointers leaves a singly linked list. -/
theorem DList.isList {next prev : α → Option α} {p : Option α} {l : List α}
    (h : DList next prev p l) : IsList (fun a ↦ some (next a)) l.head? l := by
  induction l generalizing p with
  | nil => rfl
  | cons a l ih =>
    obtain ⟨_, hn, hl⟩ := h
    exact ⟨rfl, next a, rfl, hn ▸ ih hl⟩

/-- Pointers may change outside the list, and in front of its first node. -/
theorem DList.congr {next prev next' prev' : α → Option α} {p p' : Option α} {l : List α}
    (h : DList next prev p l) (hn : ∀ a ∈ l, next' a = next a)
    (hh : ∀ a, l.head? = some a → prev' a = p') (hp : ∀ a ∈ l.tail, prev' a = prev a) :
    DList next' prev' p' l := by
  induction l generalizing p p' with
  | nil => trivial
  | cons a l ih =>
    obtain ⟨_, hna, hl⟩ := h
    refine ⟨hh a rfl, by rw [hn a (by simp), hna], ih hl (fun b hb ↦ hn b (by simp [hb])) ?_ ?_⟩
    · intro b hb
      rw [hp b (by simpa using List.mem_of_mem_head? hb)]
      cases l with
      | nil => cases hb
      | cons c l =>
        obtain rfl : c = b := by simpa using hb
        exact hl.1
    · exact fun b hb ↦ hp b (by simpa using List.mem_of_mem_tail hb)

private theorem head_notMem_tail {l : List α} (hn : l.Nodup) {a : α} (h : l.head? = some a) :
    a ∉ l.tail := by
  cases l with
  | nil => cases h
  | cons b l =>
    obtain rfl : b = a := by simpa using h
    exact (List.nodup_cons.mp hn).1

/-- The next pointer of a node holds what stands behind it. -/
theorem DList.next_eq {next prev : α → Option α} {p : Option α} {s : α} {l1 l2 : List α}
    (h : DList next prev p (l1 ++ s :: l2)) : next s = l2.head? := by
  induction l1 generalizing p with
  | nil => exact h.2.1
  | cons a l1 ih => exact ih h.2.2

/-- The previous pointer of a node holds what stands in front of it. -/
theorem DList.prev_eq {next prev : α → Option α} {p : Option α} {s : α} {l1 l2 : List α}
    (h : DList next prev p (l1 ++ s :: l2)) : prev s = l1.getLast?.or p := by
  induction l1 generalizing p with
  | nil => simpa using h.1
  | cons a l1 ih =>
    rw [ih h.2.2]
    cases l1 with
    | nil => simp
    | cons b l1 => simp [List.getLast?_cons]

section Update

variable [DecidableEq α]

/-- Inserting a node right behind the first one. -/
theorem DList.insert_second {next prev next' prev' : α → Option α} {p : Option α}
    {h s : α} {t : List α} (hd : DList next prev p (h :: t)) (ht : t.Nodup)
    (hnh : next' h = some s) (hns : next' s = next h) (hn : ∀ a ∈ t, next' a = next a)
    (hph : prev' h = prev h) (hps : prev' s = some h)
    (hpt : ∀ a ∈ t, prev' a = if next h = some a then some s else prev a) :
    DList next' prev' p (h :: s :: t) := by
  obtain ⟨hp, hnext, htail⟩ := hd
  refine ⟨hph.trans hp, hnh, hps, hns.trans hnext, ?_⟩
  apply htail.congr hn
  · intro a ha
    rw [hpt a (List.mem_of_mem_head? ha), hnext, if_pos ha]
  · intro a ha
    rw [hpt a (List.mem_of_mem_tail ha), hnext, if_neg]
    intro he
    exact head_notMem_tail ht he ha

/-- Inserting a node between two halves of the list. -/
theorem DList.insert {next prev next' prev' : α → Option α} {p : Option α} {a : α}
    {front back : List α} (hd : DList next prev p (front ++ back)) (hnd : (front ++ back).Nodup)
    (hp : ∀ c, p = some c → c ∉ front ++ back) (hna : next' a = back.head?)
    (hpa : prev' a = front.getLast?.or p)
    (hn : ∀ c ∈ front ++ back, next' c = if front.getLast? = some c then some a else next c)
    (hpv : ∀ c ∈ front ++ back, prev' c = if back.head? = some c then some a else prev c) :
    DList next' prev' p (front ++ a :: back) := by
  induction front generalizing p with
  | nil =>
    simp only [List.nil_append] at hd hnd hn hpv
    refine ⟨hpa, hna, hd.congr hn ?_ ?_⟩
    · intro c hc
      rw [hpv c (List.mem_of_mem_head? hc), if_pos hc]
    · intro c hc
      rw [hpv c (List.mem_of_mem_tail hc), if_neg]
      exact fun he ↦ head_notMem_tail hnd he hc
  | cons b front ih =>
    obtain ⟨hpb, hnb, htail⟩ := hd
    obtain ⟨hb, hnd'⟩ := List.nodup_cons.mp hnd
    -- among the others, the last of the front is the last of its tail
    have hlast : ∀ c ∈ front ++ back, (b :: front).getLast? = some c ↔ front.getLast? = some c := by
      intro c hc
      cases front with
      | nil =>
        have hne : b ≠ c := fun he ↦ hb (he ▸ hc)
        simp [hne]
      | cons d front => simp [List.getLast?_cons]
    refine ⟨?_, ?_, ih htail hnd' ?_ ?_ ?_ ?_⟩
    · rw [hpv b (List.mem_cons_self ..), if_neg, hpb]
      exact fun he ↦ hb (List.mem_append_right _ (List.mem_of_mem_head? he))
    · rw [hn b (List.mem_cons_self ..)]
      cases front with
      | nil => simp
      | cons d front =>
        rw [if_neg, hnb]
        · rfl
        · intro he
          rw [List.getLast?_cons_cons] at he
          exact hb (List.mem_append_left _ (List.mem_of_getLast? he))
    · intro c hc
      exact Option.some.inj hc ▸ hb
    · rw [hpa]
      cases front with
      | nil => rfl
      | cons d front => simp [List.getLast?_cons]
    · intro c hc
      rw [hn c (List.mem_cons_of_mem b hc)]
      simp only [hlast c hc]
    · exact fun c hc ↦ hpv c (List.mem_cons_of_mem b hc)

/-- Unlinking a node: its neighbours now point past it. -/
theorem DList.unlink {next prev next' prev' : α → Option α} {p : Option α} {s : α}
    {l1 l2 : List α} (hd : DList next prev p (l1 ++ s :: l2)) (hnd : (l1 ++ s :: l2).Nodup)
    (hp : ∀ a, p = some a → a ∉ l1 ++ s :: l2)
    (hn : ∀ a, a ≠ s → next' a = if prev s = some a then next s else next a)
    (hpv : ∀ a, a ≠ s → prev' a = if next s = some a then prev s else prev a) :
    DList next' prev' p (l1 ++ l2) := by
  induction l1 generalizing p with
  | nil =>
    obtain ⟨hps, hns, htail⟩ := hd
    obtain ⟨hs2, hnd2⟩ := List.nodup_cons.mp hnd
    have hne : ∀ a ∈ l2, a ≠ s := fun a ha he ↦ hs2 (he ▸ ha)
    apply htail.congr
    · intro a ha
      rw [hn a (hne a ha), hps, if_neg]
      exact fun he ↦ hp a he (by simp [ha])
    · intro a ha
      rw [hpv a (hne a (List.mem_of_mem_head? ha)), hns, if_pos ha, hps]
    · intro a ha
      rw [hpv a (hne a (List.mem_of_mem_tail ha)), hns, if_neg]
      exact fun he ↦ head_notMem_tail hnd2 he ha
  | cons b l1 ih =>
    have hns := hd.next_eq
    have hps := hd.prev_eq
    obtain ⟨hpb, hnb, htail⟩ := hd
    obtain ⟨hbm, hnd'⟩ := List.nodup_cons.mp hnd
    have hbs : b ≠ s := by
      rintro rfl
      exact hbm (by simp)
    refine ⟨?_, ?_, ih htail hnd' fun a ha ↦ Option.some.inj ha ▸ hbm⟩
    · rw [hpv b hbs, hns, if_neg, hpb]
      exact fun he ↦ hbm (by simp [List.mem_of_mem_head? he])
    · -- `b` is the node in front of `s` exactly when nothing stands between them.
      rw [hn b hbs, hps]
      cases l1 with
      | nil => simp [hns]
      | cons c l1 =>
        rw [if_neg, hnb]
        · rfl
        · intro he
          have hlast : (c :: l1).getLast? = some b := by
            simpa [List.getLast?_cons] using he
          exact hbm (List.mem_append_left _ (List.mem_of_getLast? hlast))

end Update
end Library
