import Mathlib.Data.List.Basic

/-!
# Openings and closings in a log

Some entries of a log open a key and some close one. A key is pending if it has been opened and not
been closed since. The users of a log hold keys: an exchange accounts for the entries it writes if
every key that is pending after it is held after it.
-/

namespace Library

variable {E K ι : Type} (opens closes : E → K → Prop)

/-- An entry opens the key, and none after it closes it. -/
def Pending (log : List E) (k : K) : Prop :=
  ∃ before e after, log = before ++ e :: after ∧ opens e k ∧ ∀ c ∈ after, ¬ closes c k

/-- Whoever held the keys `held` writes `calls` and holds the keys `kept` then. -/
def Accounts (held : K → Prop) (calls : List E) (kept : K → Prop) : Prop :=
  ∀ k, (held k ∧ ∀ c ∈ calls, ¬ closes c k) ∨ Pending opens closes calls k → kept k

variable {opens closes} {held kept left : K → Prop} {calls more : List E} {k : K}

theorem not_pending_nil : ¬ Pending opens closes [] k := by
  rintro ⟨before, e, after, h, -⟩
  simp at h

theorem pending_append_iff : Pending opens closes (calls ++ more) k ↔
    (Pending opens closes calls k ∧ ∀ c ∈ more, ¬ closes c k) ∨ Pending opens closes more k := by
  constructor
  · rintro ⟨before, e, after, heq, hopen, hclose⟩
    rcases List.append_eq_append_iff.mp heq with ⟨inner, rfl, rfl⟩ | ⟨inner, hcalls, htail⟩
    · exact .inr ⟨inner, e, after, rfl, hopen, hclose⟩
    · cases inner with
      | nil => exact .inr ⟨[], e, after, htail.symm, hopen, hclose⟩
      | cons d inner =>
        obtain ⟨rfl, rfl⟩ := List.cons.inj htail
        refine .inl ⟨⟨before, e, inner, hcalls, hopen, ?_⟩, ?_⟩
        · exact fun c hc ↦ hclose c (List.mem_append_left _ hc)
        · exact fun c hc ↦ hclose c (List.mem_append_right _ hc)
  · rintro (⟨⟨before, e, after, rfl, hopen, hclose⟩, hmore⟩ | ⟨before, e, after, rfl, hopen, hclose⟩)
    · refine ⟨before, e, after ++ more, by simp, hopen, ?_⟩
      intro c hc
      rcases List.mem_append.mp hc with hc | hc
      · exact hclose c hc
      · exact hmore c hc
    · exact ⟨calls ++ before, e, after, by simp, hopen, hclose⟩

theorem pending_cons_iff {e : E} : Pending opens closes (e :: calls) k ↔
    (opens e k ∧ ∀ c ∈ calls, ¬ closes c k) ∨ Pending opens closes calls k := by
  rw [← List.singleton_append, pending_append_iff]
  refine or_congr_left (and_congr_left fun _ ↦ ⟨?_, fun h ↦ ⟨[], e, [], rfl, h, by simp⟩⟩)
  rintro ⟨before, d, after, heq, hopen, -⟩
  cases before with
  | nil => exact (List.cons.inj heq).1 ▸ hopen
  | cons _ before => simp at heq

/-- A log without openings leaves nothing pending. -/
theorem not_pending_of_forall (h : ∀ c ∈ calls, ¬ opens c k) : ¬ Pending opens closes calls k := by
  rintro ⟨before, e, after, rfl, hopen, -⟩
  exact h e (by simp) hopen

namespace Accounts

theorem nil (h : ∀ k, held k → kept k) : Accounts opens closes held [] kept := by
  rintro k (⟨hheld, -⟩ | hpending)
  · exact h k hheld
  · exact absurd hpending not_pending_nil

theorem append (h : Accounts opens closes held calls kept)
    (h' : Accounts opens closes kept more left) : Accounts opens closes held (calls ++ more) left := by
  rintro k (⟨hheld, hnone⟩ | hpending)
  · refine h' k (.inl ⟨h k (.inl ⟨hheld, ?_⟩), ?_⟩)
    · exact fun c hc ↦ hnone c (List.mem_append_left _ hc)
    · exact fun c hc ↦ hnone c (List.mem_append_right _ hc)
  · rcases pending_append_iff.mp hpending with ⟨hpending, hnone⟩ | hpending
    · exact h' k (.inl ⟨h k (.inr hpending), hnone⟩)
    · exact h' k (.inr hpending)

/-- Keys may be counted that are not held any more. -/
theorem mono (h : Accounts opens closes held calls kept) (hle : ∀ k, kept k → left k) :
    Accounts opens closes held calls left :=
  fun k hk ↦ hle k (h k hk)

/-- Fewer keys may have been held before. -/
theorem anti (h : Accounts opens closes held calls kept) (hle : ∀ k, left k → held k) :
    Accounts opens closes left calls kept := by
  rintro k (⟨hk, hnone⟩ | hpending)
  · exact h k (.inl ⟨hle k hk, hnone⟩)
  · exact h k (.inr hpending)

/-- What others hold stays with them. -/
theorem frame (h : Accounts opens closes held calls kept) (rest : K → Prop) :
    Accounts opens closes (fun k ↦ held k ∨ rest k) calls (fun k ↦ kept k ∨ rest k) := by
  rintro k (⟨hk | hk, hnone⟩ | hpending)
  · exact .inl (h k (.inl ⟨hk, hnone⟩))
  · exact .inr hk
  · exact .inl (h k (.inr hpending))

/-- Several users write one after the other. -/
theorem flatMap {held kept : ι → K → Prop} {calls : ι → List E} {l : List ι}
    (h : ∀ i ∈ l, Accounts opens closes (held i) (calls i) (kept i)) :
    Accounts opens closes (fun k ↦ ∃ i ∈ l, held i k) (l.flatMap calls)
      (fun k ↦ ∃ i ∈ l, kept i k) := by
  induction l with
  | nil => exact nil (by simp)
  | cons i l ih =>
    have first := (h i (List.mem_cons_self ..)).frame fun k ↦ ∃ j ∈ l, held j k
    have others := (ih fun j hj ↦ h j (List.mem_cons_of_mem i hj)).frame (kept i)
    rw [List.flatMap_cons]
    refine ((first.append (others.anti ?_)).anti ?_).mono ?_
    · exact fun k hk ↦ hk.symm
    · rintro k ⟨j, hj, hk⟩
      rcases List.mem_cons.mp hj with rfl | hj
      · exact .inl hk
      · exact .inr ⟨j, hj, hk⟩
    · rintro k (⟨j, hj, hk⟩ | hk)
      · exact ⟨j, List.mem_cons_of_mem i hj, hk⟩
      · exact ⟨i, List.mem_cons_self .., hk⟩

/-- Where all that was pending is held, all that is pending then is held then. -/
theorem pending {log : List E} (h : Accounts opens closes held calls kept)
    (hlog : ∀ k, Pending opens closes log k → held k) :
    ∀ k, Pending opens closes (log ++ calls) k → kept k := by
  intro k hk
  rcases pending_append_iff.mp hk with ⟨hk, hnone⟩ | hk
  · exact h k (.inl ⟨hlog k hk, hnone⟩)
  · exact h k (.inr hk)

end Accounts

end Library
