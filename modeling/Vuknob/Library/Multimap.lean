import Mathlib.Data.List.Sort

/-!
# Multimaps

A sorted container with any number of entries for a key, as `std::multimap` is. An entry is inserted
behind those that are there for its key.
-/

namespace Library

/-- The entries in the order of their keys, those of one key in the order of their insertion. -/
@[ext]
structure Multimap (K V : Type) [LE K] where
  entries : List (K × V)
  sorted : entries.Pairwise fun e e' ↦ e.1 ≤ e'.1

namespace Multimap

variable {K V : Type} [LE K]

instance [DecidableEq K] [DecidableEq V] : DecidableEq (Multimap K V) := fun m m' ↦
  decidable_of_iff (m.entries = m'.entries) Multimap.ext_iff.symm

instance : EmptyCollection (Multimap K V) := ⟨⟨[], .nil⟩⟩

@[simp]
theorem entries_empty : (∅ : Multimap K V).entries = [] := rfl

/-- The loop over the equal range of a key that erases the entries with a value. -/
def eraseAll [DecidableEq K] [DecidableEq V] (m : Multimap K V) (entry : K × V) : Multimap K V :=
  ⟨m.entries.filter fun e ↦ ¬ (e.1 = entry.1 ∧ e.2 = entry.2), m.sorted.filter _⟩

theorem mem_of_mem_eraseAll [DecidableEq K] [DecidableEq V] {m : Multimap K V} {entry e : K × V}
    (h : e ∈ (m.eraseAll entry).entries) : e ∈ m.entries :=
  List.mem_of_mem_filter h

variable [DecidableLE K]

/-- An entry at the upper bound of its key. -/
def insertEntry (entry : K × V) (entries : List (K × V)) : List (K × V) :=
  entries.orderedInsert (fun entry e ↦ ¬ e.1 ≤ entry.1) entry

/-- Behind the entries that there are, if none of them comes after its key. -/
theorem insertEntry_eq_append {entry : K × V} {entries : List (K × V)}
    (h : ∀ e ∈ entries, e.1 ≤ entry.1) : insertEntry entry entries = entries ++ [entry] := by
  induction entries with
  | nil => rfl
  | cons e entries ih =>
    obtain ⟨he, hentries⟩ := List.forall_mem_cons.mp h
    rw [insertEntry, List.orderedInsert_of_not_le _ _ (not_not_intro he), ← insertEntry,
      ih hentries, List.cons_append]

variable [Std.IsLinearOrder K]

theorem sorted_insertEntry {entry : K × V} {entries : List (K × V)}
    (h : entries.Pairwise fun e e' ↦ e.1 ≤ e'.1) :
    (insertEntry entry entries).Pairwise fun e e' ↦ e.1 ≤ e'.1 := by
  induction entries with
  | nil => exact List.pairwise_singleton ..
  | cons e entries ih =>
    obtain ⟨hfirst, hentries⟩ := List.pairwise_cons.mp h
    rw [insertEntry, List.orderedInsert]
    split
    · next hle =>
      have hlt : entry.1 ≤ e.1 := Std.le_total.resolve_left hle
      refine List.pairwise_cons.mpr ⟨fun e' he' ↦ ?_, h⟩
      cases List.mem_cons.mp he' with
      | inl heq => exact heq ▸ hlt
      | inr hmem => exact Std.le_trans hlt (hfirst e' hmem)
    · next hle =>
      refine List.pairwise_cons.mpr ⟨fun e' he' ↦ ?_, ih hentries⟩
      cases (List.mem_orderedInsert _).mp he' with
      | inl heq => exact heq ▸ not_not.mp hle
      | inr hmem => exact hfirst e' hmem

/-- `insert`. -/
def insert (m : Multimap K V) (entry : K × V) : Multimap K V :=
  ⟨insertEntry entry m.entries, sorted_insertEntry m.sorted⟩

theorem mem_insert {m : Multimap K V} {entry e : K × V} :
    e ∈ (m.insert entry).entries ↔ e = entry ∨ e ∈ m.entries :=
  List.mem_orderedInsert _

/-- Entries of which none comes before what a multimap holds come behind it, when they are inserted
in their order. -/
theorem entries_foldl_insert (m : Multimap K V) {entries : List (K × V)}
    (h : (m.entries ++ entries).Pairwise fun e e' ↦ e.1 ≤ e'.1) :
    (entries.foldl insert m).entries = m.entries ++ entries := by
  induction entries generalizing m with
  | nil => rw [List.foldl_nil, List.append_nil]
  | cons e entries ih =>
    have hbefore := (List.pairwise_append.mp h).2.2
    have hinsert : (m.insert e).entries = m.entries ++ [e] :=
      insertEntry_eq_append fun e' he' ↦ hbefore e' he' e List.mem_cons_self
    rw [List.append_cons, ← hinsert] at h ⊢
    exact ih (m.insert e) h

/-- The entries of a multimap make it again. -/
theorem foldl_insert_entries (m : Multimap K V) : m.entries.foldl insert ∅ = m :=
  Multimap.ext (entries_foldl_insert ∅ m.sorted)

end Multimap

end Library
