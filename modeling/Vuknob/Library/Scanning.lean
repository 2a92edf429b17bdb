/-!
# Scanners

A scanner takes something from the front of its state. It may fail, and the state keeps what has
been taken until then. What a scanner makes of a text, whatever follows, is put together along with
the texts.
-/

namespace Library

variable {σ ε κ α β : Type}

/-- A computation with a state that survives its failure. -/
abbrev Scanner (σ ε α : Type) : Type := ExceptT ε (StateM σ) α

/-- Carry out a scanner. -/
def Scanner.scan (p : Scanner σ ε α) (s : σ) : Except ε α × σ := (ExceptT.run p).run s

theorem Scanner.scan_get (s : σ) : (get : Scanner σ ε σ).scan s = (.ok s, s) := rfl

theorem Scanner.scan_set (s s' : σ) : (set s' : Scanner σ ε PUnit).scan s = (.ok ⟨⟩, s') := rfl

theorem Scanner.scan_bind {p : Scanner σ ε α} {f : α → Scanner σ ε β} {s s' : σ} {a : α}
    (h : p.scan s = (.ok a, s')) : (p >>= f).scan s = (f a).scan s' := by
  simp only [scan, ExceptT.run_bind, StateT.run_bind] at h ⊢
  rw [h]
  rfl

theorem Scanner.scan_bind_error {p : Scanner σ ε α} {f : α → Scanner σ ε β} {s s' : σ} {e : ε}
    (h : p.scan s = (.error e, s')) : (p >>= f).scan s = (.error e, s') := by
  simp only [scan, ExceptT.run_bind, StateT.run_bind] at h ⊢
  rw [h]
  rfl

/-- A scanner that succeeds has succeeded in its parts. -/
theorem Scanner.scan_bind_ok {p : Scanner σ ε α} {f : α → Scanner σ ε β} {s s' : σ} {b : β}
    (h : (p >>= f).scan s = (.ok b, s')) :
    ∃ a s₁, p.scan s = (.ok a, s₁) ∧ (f a).scan s₁ = (.ok b, s') := by
  cases hp : p.scan s with
  | mk result s₁ =>
    cases result with
    | error e =>
      rw [Scanner.scan_bind_error hp] at h
      cases h
    | ok a => exact ⟨a, s₁, rfl, (Scanner.scan_bind hp).symm.trans h⟩

/-- The scanner takes the text and returns the value, whatever follows. `front` is the state in
which a given text is still to be scanned. -/
def Takes (front : List κ → σ) (p : Scanner σ ε α) (text : List κ) (a : α) : Prop :=
  ∀ rest, p.scan (front (text ++ rest)) = (.ok a, front rest)

variable {front : List κ → σ} {p : Scanner σ ε α} {f : α → Scanner σ ε β} {text text' : List κ}
  {a : α} {b : β}

/-- One scanner after the other takes one text after the other. -/
theorem Takes.bind (h : Takes front p text a) (h' : Takes front (f a) text' b) :
    Takes front (p >>= f) (text ++ text') b := by
  intro rest
  rw [List.append_assoc, Scanner.scan_bind (h _)]
  exact h' rest

/-- What is returned at the end is made of what has been taken. -/
theorem Takes.last (h : Takes front p text a) (hf : f a = Pure.pure b) :
    Takes front (p >>= f) text b := by
  intro rest
  rw [Scanner.scan_bind (h rest), hf]
  rfl

end Library
