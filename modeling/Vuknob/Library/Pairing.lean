import Mathlib.Data.List.Induction
import Mathlib.Logic.Function.Basic

/-!
# Openings and the closings that follow them

Some entries of a log open a key and some close one; an entry does not do both. An opening counts if
the key is idle, that is, if every earlier opening has been followed by a closing; it forms a pair
with the next closing of its key. A matching is made entry by entry, with the openings that count
and have no closing yet.
-/

namespace Library

variable {E K : Type} (opens closes : E → Option K)

/-- Entry `i` opens the key. -/
def OpensAt (log : List E) (i : Nat) (k : K) : Prop := ∃ e, log[i]? = some e ∧ opens e = some k

/-- Entry `j` closes the key. -/
def ClosesAt (log : List E) (j : Nat) (k : K) : Prop := ∃ e, log[j]? = some e ∧ closes e = some k

/-- Every opening of the key before entry `i` is followed by a closing before entry `i`. -/
def IdleAt (log : List E) (i : Nat) (k : K) : Prop :=
  ∀ i' < i, OpensAt opens log i' k → ∃ j, i' < j ∧ j < i ∧ ClosesAt closes log j k

/-- Entry `i` opens the key when it is idle. -/
def Counts (log : List E) (i : Nat) (k : K) : Prop :=
  OpensAt opens log i k ∧ IdleAt opens closes log i k

/-- An opening that counts, and the next closing of its key. -/
structure Pair (log : List E) (i j : Nat) (k : K) : Prop where
  counts : Counts opens closes log i k
  lt : i < j
  closed : ClosesAt closes log j k
  next : ∀ j', i < j' → j' < j → ¬ClosesAt closes log j' k

/-- An opening that counts, with no closing yet. -/
def OpenAt (log : List E) (i : Nat) (k : K) : Prop :=
  Counts opens closes log i k ∧ ∀ j, i < j → ¬ClosesAt closes log j k

/-- A matching of the first `count` entries. -/
structure Matching (K : Type) where
  count : Nat
  opened : K → Option Nat
  pairs : List (Nat × Nat)

namespace Matching

variable [DecidableEq K]

def empty : Matching K := ⟨0, fun _ ↦ none, []⟩

/-- One more entry. -/
def extend (m : Matching K) (e : E) : Matching K :=
  match opens e, closes e with
  | some k, _ =>
    { m with
      count := m.count + 1
      opened := if m.opened k = none then Function.update m.opened k (some m.count) else m.opened }
  | none, some k =>
    { count := m.count + 1
      opened := Function.update m.opened k none
      pairs := m.pairs ++ (m.opened k).toList.map fun i ↦ (i, m.count) }
  | none, none => { m with count := m.count + 1 }

/-- The matching of a log. -/
def ofLog (log : List E) : Matching K := log.foldl (extend opens closes) empty

end Matching

variable {opens closes} {log : List E} {e : E} {i j : Nat} {k : K}

theorem OpensAt.lt_length (h : OpensAt opens log i k) : i < log.length := by
  obtain ⟨e, he, -⟩ := h
  exact (List.getElem?_eq_some_iff.mp he).1

theorem OpensAt.eq {k' : K} (h : OpensAt opens log i k) (h' : OpensAt opens log i k') : k = k' := by
  obtain ⟨e, he, hk⟩ := h
  obtain ⟨e', he', hk'⟩ := h'
  obtain rfl := Option.some.inj (he.symm.trans he')
  exact Option.some.inj (hk.symm.trans hk')

theorem ClosesAt.lt_length (h : ClosesAt closes log j k) : j < log.length := by
  obtain ⟨e, he, -⟩ := h
  exact (List.getElem?_eq_some_iff.mp he).1

theorem OpensAt.lt_or_eq (h : OpensAt opens (log ++ [e]) i k) :
    i < log.length ∨ i = log.length := by
  have hlt := h.lt_length
  rw [List.length_append, List.length_singleton] at hlt
  omega

theorem ClosesAt.lt_or_eq (h : ClosesAt closes (log ++ [e]) j k) :
    j < log.length ∨ j = log.length := by
  have hlt := h.lt_length
  rw [List.length_append, List.length_singleton] at hlt
  omega

/-- A later entry changes nothing about the ones before it. -/
theorem opensAt_snoc (hi : i < log.length) :
    OpensAt opens (log ++ [e]) i k ↔ OpensAt opens log i k := by
  rw [OpensAt, OpensAt, List.getElem?_append_left hi]

theorem opensAt_last : OpensAt opens (log ++ [e]) log.length k ↔ opens e = some k := by
  simp [OpensAt]

theorem closesAt_snoc (hj : j < log.length) :
    ClosesAt closes (log ++ [e]) j k ↔ ClosesAt closes log j k := by
  rw [ClosesAt, ClosesAt, List.getElem?_append_left hj]

theorem closesAt_last : ClosesAt closes (log ++ [e]) log.length k ↔ closes e = some k := by
  simp [ClosesAt]

theorem idleAt_snoc (hi : i ≤ log.length) :
    IdleAt opens closes (log ++ [e]) i k ↔ IdleAt opens closes log i k := by
  refine forall_congr' fun i' ↦ forall_congr' fun hlt ↦ ?_
  rw [opensAt_snoc (by omega)]
  refine imp_congr_right fun _ ↦ exists_congr fun j ↦ and_congr_right fun _ ↦ ?_
  exact and_congr_right fun hj ↦ closesAt_snoc (by omega)

theorem counts_snoc (hi : i < log.length) :
    Counts opens closes (log ++ [e]) i k ↔ Counts opens closes log i k := by
  rw [Counts, Counts, opensAt_snoc hi, idleAt_snoc (by omega)]

theorem pair_snoc (hj : j < log.length) :
    Pair opens closes (log ++ [e]) i j k ↔ Pair opens closes log i j k := by
  constructor
  · rintro ⟨hcounts, hlt, hcloses, hnext⟩
    refine ⟨(counts_snoc (by omega)).mp hcounts, hlt, (closesAt_snoc hj).mp hcloses, ?_⟩
    exact fun j' hle hlt' hj' ↦ hnext j' hle hlt' ((closesAt_snoc (by omega)).mpr hj')
  · rintro ⟨hcounts, hlt, hcloses, hnext⟩
    refine ⟨(counts_snoc (by omega)).mpr hcounts, hlt, (closesAt_snoc hj).mpr hcloses, ?_⟩
    exact fun j' hle hlt' hj' ↦ hnext j' hle hlt' ((closesAt_snoc (by omega)).mp hj')

theorem Pair.lt_length (h : Pair opens closes log i j k) : j < log.length := h.closed.lt_length

/-- An entry that does not close the key leaves it open. -/
theorem openAt_snoc (hi : i < log.length) (he : closes e ≠ some k) :
    OpenAt opens closes (log ++ [e]) i k ↔ OpenAt opens closes log i k := by
  rw [OpenAt, OpenAt, counts_snoc hi]
  refine and_congr_right fun _ ↦ forall_congr' fun j ↦ imp_congr_right fun _ ↦ not_congr ?_
  constructor
  · intro hj
    rcases hj.lt_or_eq with hlt | rfl
    · exact (closesAt_snoc hlt).mp hj
    · exact absurd (closesAt_last.mp hj) he
  · intro hj
    exact (closesAt_snoc hj.lt_length).mpr hj

/-- An open key is not idle. -/
theorem OpenAt.not_idleAt (h : OpenAt opens closes log i k) :
    ¬IdleAt opens closes log log.length k := by
  intro hidle
  obtain ⟨j, hij, -, hj⟩ := hidle i h.1.1.lt_length h.1.1
  exact h.2 j hij hj

/-- A key that is idle stays so until it is opened. -/
theorem idleAt_succ (hidle : IdleAt opens closes log log.length k) (he : opens e ≠ some k) :
    IdleAt opens closes (log ++ [e]) (log ++ [e]).length k := by
  intro i _ hopen
  rw [List.length_append, List.length_singleton]
  rcases hopen.lt_or_eq with hlt | rfl
  · obtain ⟨j, hij, hj, hclosed⟩ := hidle i hlt ((opensAt_snoc hlt).mp hopen)
    exact ⟨j, hij, by omega, (closesAt_snoc hj).mpr hclosed⟩
  · exact absurd (opensAt_last.mp hopen) he

/-- Closing a key makes it idle. -/
theorem idleAt_of_closes (he : closes e = some k) (hno : opens e = none) :
    IdleAt opens closes (log ++ [e]) (log ++ [e]).length k := by
  intro i _ hopen
  rw [List.length_append, List.length_singleton]
  rcases hopen.lt_or_eq with hlt | rfl
  · exact ⟨log.length, hlt, Nat.lt_succ_self _, closesAt_last.mpr he⟩
  · rw [opensAt_last, hno] at hopen
    cases hopen

/-- Of two pairs with the same key, the one is closed before the other is opened. -/
theorem Pair.lt_of_lt {i' j' : Nat} (hone : ∀ e k, opens e = some k → closes e = none)
    (h : Pair opens closes log i j k) (h' : Pair opens closes log i' j' k) (hlt : j < j') :
    j < i' := by
  by_contra hle
  by_cases heq : j = i'
  · obtain ⟨e, he, hclosed⟩ := h.closed
    obtain ⟨e', he', hopen⟩ := h'.counts.1
    rw [heq, he'] at he
    obtain rfl := Option.some.inj he
    rw [hone e' k hopen] at hclosed
    cases hclosed
  · exact h'.next j (by omega) hlt h.closed

/-- The last entry is in a pair exactly if it closes a key that is open. -/
theorem pair_last : Pair opens closes (log ++ [e]) i log.length k ↔
    closes e = some k ∧ OpenAt opens closes log i k := by
  constructor
  · rintro ⟨hcounts, hlt, hclosed, hnext⟩
    refine ⟨closesAt_last.mp hclosed, (counts_snoc hlt).mp hcounts, fun j hij hj ↦ ?_⟩
    exact hnext j hij hj.lt_length ((closesAt_snoc hj.lt_length).mpr hj)
  · rintro ⟨he, hcounts, hnone⟩
    have hlt := hcounts.1.lt_length
    refine ⟨(counts_snoc hlt).mpr hcounts, hlt, closesAt_last.mpr he, fun j hij hj hclosed ↦ ?_⟩
    exact hnone j hij ((closesAt_snoc hj).mp hclosed)

/-- The matching of a log is right. -/
structure Matches (opens closes : E → Option K) (log : List E) (m : Matching K) : Prop where
  count : m.count = log.length
  opened : ∀ k i, m.opened k = some i ↔ OpenAt opens closes log i k
  idle : ∀ k, m.opened k = none → IdleAt opens closes log log.length k
  mem : ∀ i j, (i, j) ∈ m.pairs ↔ ∃ k, Pair opens closes log i j k
  sorted : m.pairs.Pairwise fun a b ↦ a.2 < b.2

theorem matches_empty : Matches opens closes [] .empty where
  count := rfl
  opened k i := iff_of_false nofun fun h ↦ absurd h.1.1.lt_length (Nat.not_lt_zero i)
  idle k _ i hi := absurd hi (Nat.not_lt_zero i)
  mem i j := by
    refine iff_of_false List.not_mem_nil ?_
    rintro ⟨k, h⟩
    exact Nat.not_lt_zero j h.lt_length
  sorted := .nil

/-- Without a closing, the pairs are the old ones. -/
theorem exists_pair_snoc (he : closes e = none) :
    (∃ k, Pair opens closes (log ++ [e]) i j k) ↔ ∃ k, Pair opens closes log i j k := by
  refine exists_congr fun k ↦ ⟨fun h ↦ ?_, fun h ↦ (pair_snoc h.lt_length).mpr h⟩
  rcases h.closed.lt_or_eq with hlt | rfl
  · exact (pair_snoc hlt).mp h
  · rw [pair_last, he] at h
    cases h.1

/-- A key that the last entry neither opens nor closes. -/
theorem openAt_snoc_other (hopens : opens e ≠ some k) (hcloses : closes e ≠ some k) :
    OpenAt opens closes (log ++ [e]) i k ↔ OpenAt opens closes log i k := by
  constructor
  · intro h
    rcases h.1.1.lt_or_eq with hlt | rfl
    · exact (openAt_snoc hlt hcloses).mp h
    · exact absurd (opensAt_last.mp h.1.1) hopens
  · exact fun h ↦ (openAt_snoc h.1.1.lt_length hcloses).mpr h

/-- A key that is idle is opened by the last entry, and by no other. -/
theorem openAt_snoc_of_idle (hopens : opens e = some k) (hno : closes e ≠ some k)
    (hidle : IdleAt opens closes log log.length k) :
    OpenAt opens closes (log ++ [e]) i k ↔ i = log.length := by
  constructor
  · intro h
    rcases h.1.1.lt_or_eq with hlt | heq
    · exact absurd hidle ((openAt_snoc hlt hno).mp h).not_idleAt
    · exact heq
  · rintro rfl
    refine ⟨⟨opensAt_last.mpr hopens, (idleAt_snoc (Nat.le_refl _)).mpr hidle⟩, ?_⟩
    intro j hj hclosed
    rcases hclosed.lt_or_eq with hlt | rfl
    · exact Nat.lt_asymm hj hlt
    · exact Nat.lt_irrefl _ hj

/-- A key that is open is not opened again. -/
theorem openAt_snoc_of_open {i₀ : Nat} (hno : closes e ≠ some k)
    (hopen : OpenAt opens closes log i₀ k) :
    OpenAt opens closes (log ++ [e]) i k ↔ OpenAt opens closes log i k := by
  constructor
  · intro h
    rcases h.1.1.lt_or_eq with hlt | rfl
    · exact (openAt_snoc hlt hno).mp h
    · exact absurd ((idleAt_snoc (Nat.le_refl _)).mp h.1.2) hopen.not_idleAt
  · exact fun h ↦ (openAt_snoc h.1.1.lt_length hno).mpr h

/-- A key that the last entry closes is not open. -/
theorem not_openAt_of_closes (hcloses : closes e = some k) (hno : opens e ≠ some k) :
    ¬OpenAt opens closes (log ++ [e]) i k := by
  intro h
  rcases h.1.1.lt_or_eq with hlt | rfl
  · exact h.2 log.length hlt (closesAt_last.mpr hcloses)
  · exact hno (opensAt_last.mp h.1.1)

variable [DecidableEq K] {m : Matching K}

/-- An entry that opens a key. -/
theorem Matches.opening (h : Matches opens closes log m) (hopens : opens e = some k)
    (hno : closes e = none) : Matches opens closes (log ++ [e]) (m.extend opens closes e) := by
  have hnone : ∀ k', closes e ≠ some k' := fun k' ↦ by rw [hno]; nofun
  have hother : ∀ k', k' ≠ k → opens e ≠ some k' := fun k' hne he ↦
    hne (Option.some.inj (he.symm.trans hopens))
  have hopened : ∀ k', k' ≠ k → (m.extend opens closes e).opened k' = m.opened k' := by
    intro k' hne
    simp only [Matching.extend, hopens]
    split
    · exact Function.update_of_ne hne _ _
    · rfl
  have hself : (m.extend opens closes e).opened k =
      if m.opened k = none then some m.count else m.opened k := by
    simp only [Matching.extend, hopens]
    split
    · exact Function.update_self ..
    · rfl
  have hcount : (m.extend opens closes e).count = m.count + 1 := by
    simp only [Matching.extend, hopens]
  have hpairs : (m.extend opens closes e).pairs = m.pairs := by
    simp only [Matching.extend, hopens]
  refine ⟨?_, fun k' i ↦ ?_, fun k' hk' ↦ ?_, fun i j ↦ ?_, hpairs ▸ h.sorted⟩
  · rw [hcount, h.count, List.length_append]
    rfl
  · by_cases hne : k' = k
    · subst hne
      rw [hself]
      cases hk : m.opened k' with
      | none =>
        rw [if_pos rfl, h.count, Option.some.injEq, eq_comm,
          openAt_snoc_of_idle hopens (hnone k') (h.idle k' hk)]
      | some i₀ =>
        rw [if_neg (Option.some_ne_none i₀), ← hk, h.opened,
          openAt_snoc_of_open (hnone k') ((h.opened k' i₀).mp hk)]
    · rw [hopened k' hne, h.opened, openAt_snoc_other (hother k' hne) (hnone k')]
  · by_cases hne : k' = k
    · subst hne
      rw [hself] at hk'
      split at hk'
      · cases hk'
      · next hsome => exact absurd hk' hsome
    · exact idleAt_succ (h.idle k' (hopened k' hne ▸ hk')) (hother k' hne)
  · rw [hpairs, h.mem, exists_pair_snoc hno]

/-- An entry that closes a key. -/
theorem Matches.closing (h : Matches opens closes log m) (hcloses : closes e = some k)
    (hno : opens e = none) : Matches opens closes (log ++ [e]) (m.extend opens closes e) := by
  have hnone : ∀ k', opens e ≠ some k' := fun k' ↦ by rw [hno]; nofun
  have hother : ∀ k', k' ≠ k → closes e ≠ some k' := fun k' hne he ↦
    hne (Option.some.inj (he.symm.trans hcloses))
  have hextend : m.extend opens closes e = ⟨m.count + 1, Function.update m.opened k none,
      m.pairs ++ (m.opened k).toList.map fun i ↦ (i, m.count)⟩ := by
    simp only [Matching.extend, hno, hcloses]
  have hnew : ∀ i j, (i, j) ∈ (m.opened k).toList.map (fun i ↦ (i, m.count)) ↔
      j = log.length ∧ OpenAt opens closes log i k := by
    intro i j
    rw [← h.opened, ← h.count]
    cases hk : m.opened k with
    | none => exact iff_of_false List.not_mem_nil fun hall ↦ nomatch hall.2
    | some i₀ =>
      simp only [Option.toList_some, List.map_singleton, List.mem_singleton, Prod.mk.injEq,
        Option.some.injEq]
      exact ⟨fun hall ↦ ⟨hall.2, hall.1.symm⟩, fun hall ↦ ⟨hall.2.symm, hall.1⟩⟩
  rw [hextend]
  refine ⟨?_, fun k' i ↦ ?_, fun k' hk' ↦ ?_, fun i j ↦ ?_, ?_⟩
  · rw [h.count, List.length_append]
    rfl
  · by_cases hne : k' = k
    · subst hne
      change Function.update m.opened k' none k' = some i ↔ _
      rw [Function.update_self]
      exact iff_of_false nofun (not_openAt_of_closes hcloses (hnone k'))
    · change Function.update m.opened k none k' = some i ↔ _
      rw [Function.update_of_ne hne, h.opened, openAt_snoc_other (hnone k') (hother k' hne)]
  · by_cases hne : k' = k
    · subst hne
      exact idleAt_of_closes hcloses hno
    · change Function.update m.opened k none k' = none at hk'
      rw [Function.update_of_ne hne] at hk'
      exact idleAt_succ (h.idle k' hk') (hnone k')
  · rw [List.mem_append, h.mem, hnew]
    constructor
    · rintro (⟨k', hpair⟩ | ⟨rfl, hopen⟩)
      · exact ⟨k', (pair_snoc hpair.lt_length).mpr hpair⟩
      · exact ⟨k, pair_last.mpr ⟨hcloses, hopen⟩⟩
    · rintro ⟨k', hpair⟩
      rcases hpair.closed.lt_or_eq with hlt | rfl
      · exact .inl ⟨k', (pair_snoc hlt).mp hpair⟩
      · obtain ⟨hclosed, hopen⟩ := pair_last.mp hpair
        obtain rfl := Option.some.inj (hclosed.symm.trans hcloses)
        exact .inr ⟨rfl, hopen⟩
  · refine List.pairwise_append.mpr ⟨h.sorted, ?_, ?_⟩
    · cases m.opened k with
      | none => exact .nil
      | some i₀ => exact List.pairwise_singleton ..
    · rintro ⟨i, j⟩ hold ⟨i', j'⟩ hlast
      obtain ⟨k', hpair⟩ := (h.mem i j).mp hold
      have hlt := hpair.lt_length
      have hlast := ((hnew i' j').mp hlast).1
      show j < j'
      omega

/-- An entry that does neither. -/
theorem Matches.neither (h : Matches opens closes log m) (hopens : opens e = none)
    (hcloses : closes e = none) :
    Matches opens closes (log ++ [e]) (m.extend opens closes e) := by
  have hextend : m.extend opens closes e = { m with count := m.count + 1 } := by
    simp only [Matching.extend, hopens, hcloses]
  have hopens' : ∀ k', opens e ≠ some k' := fun k' ↦ by rw [hopens]; nofun
  have hcloses' : ∀ k', closes e ≠ some k' := fun k' ↦ by rw [hcloses]; nofun
  rw [hextend]
  refine ⟨?_, fun k i ↦ ?_, fun k hk ↦ idleAt_succ (h.idle k hk) (hopens' k), fun i j ↦ ?_,
    h.sorted⟩
  · rw [h.count, List.length_append]
    rfl
  · exact (h.opened k i).trans (openAt_snoc_other (hopens' k) (hcloses' k)).symm
  · exact (h.mem i j).trans (exists_pair_snoc hcloses).symm

/-- An event of a log whose events do not open and close at once. -/
theorem Matches.extend (h : Matches opens closes log m)
    (hone : ∀ e k, opens e = some k → closes e = none) (e : E) :
    Matches opens closes (log ++ [e]) (m.extend opens closes e) := by
  cases hopens : opens e with
  | some k => exact h.opening hopens (hone e k hopens)
  | none =>
    cases hcloses : closes e with
    | some k => exact h.closing hcloses hopens
    | none => exact h.neither hopens hcloses

/-- The matching has exactly the pairs of the log, in the order of their closings. -/
theorem matches_ofLog (hone : ∀ e k, opens e = some k → closes e = none) (log : List E) :
    Matches opens closes log (Matching.ofLog opens closes log) := by
  induction log using List.reverseRecOn with
  | nil => exact matches_empty
  | append_singleton log e ih =>
    rw [Matching.ofLog, List.foldl_append]
    exact ih.extend hone e

end Library
