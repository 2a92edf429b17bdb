import Mathlib.Algebra.Order.Ring.Int
import Vuknob.Base.StdString

/-!
# Numbers as text

`std::to_string`, `std::stoi`, `std::stol` and `std::stoul` on the integer types of the
source, and the conversion `%08x` of `snprintf` and `sscanf`, which the headers of messages
go through. `long` has 64 bits.
-/

namespace Vuknob

/-- The decimal digits of `n` in front of `acc`, the least significant one last. -/
def decimalOnto : Nat → Nat → StdString → StdString
  | 0, _, acc => acc
  | fuel + 1, n, acc =>
    let digit := UInt8.ofNat (48 + n % 10)
    if n / 10 = 0 then digit :: acc else decimalOnto fuel (n / 10) (digit :: acc)

/-- `std::to_string` of an unsigned value. -/
def decimal (n : Nat) : StdString := decimalOnto (n + 1) n []

/-- `std::to_string` of a signed value. -/
def decimalInt : Int → StdString
  | .ofNat n => decimal n
  | .negSucc n => str "-" ++ decimal (n + 1)

example : decimal 4096 = str "4096" := by decide

/-- `isspace` in the "C" locale. -/
def isSpace (c : UInt8) : Bool := c = 32 ∨ 9 ≤ c ∧ c ≤ 13

/-- A decimal digit. -/
def isDigit (c : UInt8) : Bool := 48 ≤ c ∧ c ≤ 57

/-- The value of a sequence of decimal digits. -/
def digitsValue (digits : StdString) : Nat := digits.foldl (fun n c ↦ 10 * n + (c.toNat - 48)) 0

/-- The text that `strtol` converts in base 10: white space, an optional sign and digits.
The sign is `true` for a minus; `none` when there is no digit. -/
def scanDecimal (s : StdString) : Option (Bool × Nat) :=
  let text := (cString s).dropWhile isSpace
  let unsigned := if text.head? = some 45 ∨ text.head? = some 43 then text.tail else text
  let digits := unsigned.takeWhile isDigit
  if digits = [] then none else some (text.head? = some 45, digitsValue digits)

/-- `std::invalid_argument` and `std::out_of_range`. -/
inductive ConversionError
  | invalidArgument
  | outOfRange
  deriving DecidableEq

/-- A signed conversion to a type with values from `-bound` up to `bound`. -/
def stoSigned (bound : Nat) (s : StdString) : Except ConversionError Int :=
  match scanDecimal s with
  | none => .error .invalidArgument
  | some (negative, n) =>
    let value : Int := if negative then -n else n
    if -(bound : Int) ≤ value ∧ value < bound then .ok value else .error .outOfRange

/-- `std::stoi`. -/
def stoi (s : StdString) : Except ConversionError Int32 :=
  (stoSigned (2 ^ 31) s).map Int32.ofInt

/-- `std::stol`. -/
def stol (s : StdString) : Except ConversionError Int64 :=
  (stoSigned (2 ^ 63) s).map Int64.ofInt

/-- `std::stoul`: a minus negates the value as an unsigned one. -/
def stoul (s : StdString) : Except ConversionError UInt64 :=
  match scanDecimal s with
  | none => .error .invalidArgument
  | some (negative, n) =>
    if n < 2 ^ 64 then .ok (if negative then -UInt64.ofNat n else UInt64.ofNat n)
    else .error .outOfRange

private theorem decimalOnto_spec (fuel n : Nat) (acc : StdString) (h : n < fuel) :
    ∃ digits, decimalOnto fuel n acc = digits ++ acc ∧ digits ≠ [] ∧
      (∀ c ∈ digits, isDigit c = true) ∧ digitsValue digits = n ∧
      ∀ k, n < 10 ^ (k + 1) → digits.length ≤ k + 1 := by
  induction fuel generalizing n acc with
  | zero => omega
  | succ fuel ih =>
    have hdigit : ∀ d < 10, isDigit (UInt8.ofNat (48 + d)) = true ∧
        (UInt8.ofNat (48 + d)).toNat - 48 = d := by decide
    obtain ⟨hd, hvalue⟩ := hdigit (n % 10) (Nat.mod_lt _ (by decide))
    rw [decimalOnto]
    split
    · next hsmall =>
      refine ⟨[UInt8.ofNat (48 + n % 10)], rfl, by simp, by simpa using hd, ?_, by simp⟩
      simp only [digitsValue, List.foldl_cons, List.foldl_nil, hvalue]
      omega
    · next hlarge =>
      obtain ⟨digits, heq, hne, hall, hval, hlen⟩ :=
        ih (n / 10) (UInt8.ofNat (48 + n % 10) :: acc) (by omega)
      refine ⟨digits ++ [UInt8.ofNat (48 + n % 10)], ?_, by simp, ?_, ?_, ?_⟩
      · rw [heq, List.append_assoc]
        rfl
      · intro c hc
        rw [List.mem_append, List.mem_singleton] at hc
        rcases hc with hc | rfl
        · exact hall c hc
        · exact hd
      · simp only [digitsValue, List.foldl_append, List.foldl_cons, List.foldl_nil, hvalue]
        rw [digitsValue] at hval
        omega
      · intro k hk
        cases k with
        | zero => omega
        | succ k =>
          have := hlen k (by rw [Nat.pow_succ] at hk; omega)
          rw [List.length_append, List.length_singleton]
          omega

private theorem decimal_spec (n : Nat) :
    decimal n ≠ [] ∧ (∀ c ∈ decimal n, isDigit c = true) ∧ digitsValue (decimal n) = n ∧
      ∀ k, n < 10 ^ (k + 1) → (decimal n).length ≤ k + 1 := by
  obtain ⟨digits, heq, hspec⟩ := decimalOnto_spec (n + 1) n [] (Nat.lt_succ_self n)
  rw [List.append_nil] at heq
  rw [decimal, heq]
  exact hspec

/-- The length of a decimal number. -/
theorem length_decimal_le {n k : Nat} (h : n < 10 ^ (k + 1)) : (decimal n).length ≤ k + 1 :=
  (decimal_spec n).2.2.2 k h

private theorem isDigit_facts {c : UInt8} (h : isDigit c = true) :
    isSpace c = false ∧ c ≠ 0 ∧ c ≠ 45 ∧ c ≠ 43 ∧ c ≠ 59 ∧ c ≠ 61 := by
  have hbounds : 48 ≤ c.toNat ∧ c.toNat ≤ 57 := by
    simpa [isDigit, UInt8.le_iff_toNat_le] using h
  have hne (d : UInt8) (hd : d.toNat < 48 ∨ 57 < d.toNat) : c ≠ d := by
    rintro rfl
    omega
  refine ⟨?_, hne _ (by decide), hne _ (by decide), hne _ (by decide), hne _ (by decide),
    hne _ (by decide)⟩
  have h32 := hne 32 (by decide)
  simp only [isSpace, h32, UInt8.le_iff_toNat_le, false_or, decide_eq_false_iff_not, not_and]
  intro _ hle
  have : (13 : UInt8).toNat = 13 := by decide
  omega

/-- A number as text is an ordinary value of a message. -/
theorem mem_decimal {n : Nat} {c : UInt8} (hc : c ∈ decimal n) : c ≠ 0 ∧ c ≠ 59 ∧ c ≠ 61 := by
  have := isDigit_facts ((decimal_spec n).2.1 c hc)
  exact ⟨this.2.1, this.2.2.2.2.1, this.2.2.2.2.2⟩

theorem decimal_ne_nil (n : Nat) : decimal n ≠ [] := (decimal_spec n).1

private theorem takeWhile_decimal (n : Nat) : (decimal n).takeWhile isDigit = decimal n :=
  List.takeWhile_eq_self_iff.mpr (decimal_spec n).2.1

/-- A number can be read off a text in which something else than a digit follows it. -/
theorem decimal_append_inj {n m : Nat} {c : UInt8} (hc : isDigit c = false) {a b : StdString}
    (h : decimal n ++ c :: a = decimal m ++ c :: b) : n = m ∧ a = b := by
  have hread : ∀ k l, (decimal k ++ c :: l).takeWhile isDigit = decimal k := fun k l ↦ by
    rw [List.takeWhile_append_of_pos (decimal_spec k).2.1, List.takeWhile_cons_of_neg (by simp [hc]),
      List.append_nil]
  have hdigits : decimal n = decimal m := by rw [← hread n a, h, hread]
  have hn : n = m := by rw [← (decimal_spec n).2.2.1, hdigits, (decimal_spec m).2.2.1]
  subst hn
  exact ⟨rfl, (List.cons.inj (List.append_cancel_left h)).2⟩

private theorem dropWhile_isSpace {c : UInt8} {s : StdString} (h : isSpace c = false) :
    (c :: s).dropWhile isSpace = c :: s := by
  rw [List.dropWhile_cons_of_neg (by simp [h])]

private theorem scanDecimal_decimal (n : Nat) : scanDecimal (decimal n) = some (false, n) := by
  obtain ⟨hne, hall, hvalue, -⟩ := decimal_spec n
  have hzero : 0 ∉ decimal n := fun h ↦ (mem_decimal h).1 rfl
  obtain ⟨c, s, hcons⟩ := List.exists_cons_of_ne_nil hne
  have hc := isDigit_facts (hall c (by simp [hcons]))
  have hspace : (decimal n).dropWhile isSpace = decimal n := by
    rw [hcons, dropWhile_isSpace hc.1]
  have hhead : (decimal n).head? = some c := by rw [hcons, List.head?_cons]
  simp only [scanDecimal, cString_of_notMem hzero, hspace, hhead, Option.some.injEq, hc.2.2.1,
    hc.2.2.2.1, or_self, if_false, takeWhile_decimal, hne, hvalue, decide_false]

private theorem scanDecimal_minus (n : Nat) :
    scanDecimal (str "-" ++ decimal n) = some (true, n) := by
  obtain ⟨hne, hall, hvalue, -⟩ := decimal_spec n
  have hminus : str "-" ++ decimal n = 45 :: decimal n := rfl
  have hzero : 0 ∉ 45 :: decimal n := by
    rw [List.mem_cons, not_or]
    exact ⟨by decide, fun h ↦ (mem_decimal h).1 rfl⟩
  have hspace : (45 :: decimal n).dropWhile isSpace = 45 :: decimal n :=
    dropWhile_isSpace (by decide)
  simp only [scanDecimal, hminus, cString_of_notMem hzero, hspace, List.head?_cons, List.tail_cons,
    true_or, if_true, takeWhile_decimal, hne, if_false, hvalue, decide_true]

/-- `std::stoul` reads back what `std::to_string` wrote. -/
theorem stoul_decimal (n : UInt32) : stoul (decimal n.toNat) = .ok (UInt64.ofNat n.toNat) := by
  have hlt : n.toNat < 2 ^ 64 := Nat.lt_trans n.toNat_lt (by decide)
  simp only [stoul, scanDecimal_decimal, hlt, if_true, Bool.false_eq_true, if_false]

private theorem stoSigned_decimalInt (bound : Nat) (v : Int) (h : -(bound : Int) ≤ v ∧ v < bound) :
    stoSigned bound (decimalInt v) = .ok v := by
  cases v with
  | ofNat n =>
    simp only [stoSigned, decimalInt, scanDecimal_decimal, Bool.false_eq_true, if_false]
    exact if_pos h
  | negSucc n =>
    simp only [stoSigned, decimalInt, scanDecimal_minus, if_true]
    exact if_pos h

/-- `std::stoi` reads back what `std::to_string` wrote. -/
theorem stoi_decimalInt (v : Int32) : stoi (decimalInt v.toInt) = .ok v := by
  rw [stoi, stoSigned_decimalInt (2 ^ 31) v.toInt ⟨v.le_toInt, v.toInt_lt⟩, Except.map,
    Int32.ofInt_toInt]

/-- `std::stol` reads back what `std::to_string` wrote. -/
theorem stol_decimalInt (v : Int32) : stol (decimalInt v.toInt) = .ok (Int64.ofInt v.toInt) := by
  have hlo := v.le_toInt
  have hhi := v.toInt_lt
  rw [stol, stoSigned_decimalInt (2 ^ 63) v.toInt ⟨by omega, by omega⟩, Except.map]

theorem stol_decimal (n : UInt32) : stol (decimal n.toNat) = .ok (Int64.ofInt n.toNat) := by
  have hlt := n.toNat_lt
  have h := stoSigned_decimalInt (2 ^ 63) n.toNat ⟨by omega, by omega⟩
  rw [stol, show decimal n.toNat = decimalInt n.toNat from rfl, h, Except.map]

/-- A signed number as text is made of digits and a minus. -/
theorem notMem_decimalInt {c : UInt8} (hdigit : isDigit c = false) (hminus : c ≠ 45) (v : Int) :
    c ∉ decimalInt v := by
  have hdecimal (n : Nat) : c ∉ decimal n := fun h ↦
    Bool.false_ne_true (hdigit.symm.trans ((decimal_spec n).2.1 c h))
  cases v with
  | ofNat n => exact hdecimal n
  | negSucc n =>
    rw [decimalInt, List.mem_append, not_or, show str "-" = [45] by decide, List.mem_singleton]
    exact ⟨hminus, hdecimal _⟩

/-- A signed number as text is an ordinary value of a message too. -/
theorem mem_decimalInt {v : Int} {c : UInt8} (hc : c ∈ decimalInt v) :
    c ≠ 0 ∧ c ≠ 59 ∧ c ≠ 61 := by
  refine ⟨?_, ?_, ?_⟩
  all_goals
    rintro rfl
    exact absurd hc (notMem_decimalInt (by decide) (by decide) v)

/-- A number as text holds nothing that is escaped. -/
theorem percent_notMem_decimalInt (v : Int) : 37 ∉ decimalInt v :=
  notMem_decimalInt (by decide) (by decide) v

theorem decimalInt_ne_nil (v : Int) : decimalInt v ≠ [] := by
  cases v with
  | ofNat n => exact decimal_ne_nil n
  | negSucc n => simp [decimalInt, decimal_ne_nil]

/-- The length of an `int` as text. -/
theorem length_decimalInt_le (v : Int32) : (decimalInt v.toInt).length ≤ 11 := by
  have hlo := v.le_toInt
  have hhi := v.toInt_lt
  cases hv : v.toInt with
  | ofNat n =>
    rw [hv, Int.ofNat_eq_natCast] at hhi
    have := length_decimal_le (n := n) (k := 9) (by omega)
    rw [decimalInt]
    omega
  | negSucc n =>
    have := length_decimal_le (n := n + 1) (k := 9) (by omega)
    have hminus : (str "-").length = 1 := by decide
    rw [decimalInt, List.length_append]
    omega

/-- A lower-case hexadecimal digit. -/
def hexDigit (d : Nat) : UInt8 := UInt8.ofNat (if d < 10 then 48 + d else 87 + d)

/-- The `w` last hexadecimal digits of `n`. -/
def hexDigits : Nat → Nat → StdString
  | 0, _ => []
  | w + 1, n => hexDigits w (n / 16) ++ [hexDigit (n % 16)]

/-- `snprintf(s, 9, "%08x", n)`: no 32-bit value has more than eight digits. -/
def snprintf08x (n : UInt32) : StdString := hexDigits 8 n.toNat

/-- The value of a hexadecimal digit of either case. -/
def hexDigitValue (c : UInt8) : Option Nat :=
  if 48 ≤ c ∧ c ≤ 57 then some (c.toNat - 48)
  else if 97 ≤ c ∧ c ≤ 102 then some (c.toNat - 87)
  else if 65 ≤ c ∧ c ≤ 70 then some (c.toNat - 55)
  else none

/-- The digits at the start of a field after its sign, an optional `0x` stripped. -/
def scanHexDigits (field : StdString) : Option Nat :=
  let digits :=
    (if field.take 2 = str "0x" ∨ field.take 2 = str "0X" then field.drop 2 else field).takeWhile
      fun c ↦ (hexDigitValue c).isSome
  if digits = [] then none
  else some (digits.foldl (fun n c ↦ 16 * n + (hexDigitValue c).getD 0) 0)

/-- `sscanf(s, "%08x", &n)`: white space, then a field of at most eight characters with an
optional sign; `none` when nothing matches and `n` keeps its value. -/
def sscanf08x (s : StdString) : Option UInt32 :=
  let field := ((cString s).dropWhile isSpace).take 8
  if field.head? = some 45 then (scanHexDigits field.tail).map fun n ↦ -UInt32.ofNat n
  else if field.head? = some 43 then (scanHexDigits field.tail).map UInt32.ofNat
  else (scanHexDigits field).map UInt32.ofNat

private theorem hexDigit_spec (d : Nat) (hd : d < 16) :
    hexDigitValue (hexDigit d) = some d ∧ isSpace (hexDigit d) = false ∧ hexDigit d ≠ 0 ∧
      hexDigit d ≠ 45 ∧ hexDigit d ≠ 43 ∧ hexDigit d ≠ 120 ∧ hexDigit d ≠ 88 := by
  revert d
  decide

private theorem digit_of_mem_hexDigits {w n : Nat} {c : UInt8} (hc : c ∈ hexDigits w n) :
    ∃ d < 16, c = hexDigit d := by
  induction w generalizing n with
  | zero => cases hc
  | succ w ih =>
    rw [hexDigits, List.mem_append, List.mem_singleton] at hc
    rcases hc with hc | rfl
    · exact ih hc
    · exact ⟨n % 16, Nat.mod_lt _ (by decide), rfl⟩

private theorem length_hexDigits (w n : Nat) : (hexDigits w n).length = w := by
  induction w generalizing n with
  | zero => rfl
  | succ w ih => simp [hexDigits, ih]

private theorem foldl_hexDigits (w n : Nat) :
    (hexDigits w n).foldl (fun n c ↦ 16 * n + (hexDigitValue c).getD 0) 0 = n % 16 ^ w := by
  induction w generalizing n with
  | zero => rw [Nat.pow_zero, Nat.mod_one]; rfl
  | succ w ih =>
    rw [hexDigits, List.foldl_append, ih]
    have hd := (hexDigit_spec (n % 16) (Nat.mod_lt _ (by decide))).1
    simp only [List.foldl_cons, List.foldl_nil, hd, Option.getD_some]
    rw [Nat.pow_succ', Nat.mod_mul]
    omega

/-- The header takes eight characters. -/
@[simp] theorem length_snprintf08x (n : UInt32) : (snprintf08x n).length = 8 :=
  length_hexDigits 8 _

/-- The header holds digits only. -/
theorem mem_snprintf08x {n : UInt32} {c : UInt8} (hc : c ∈ snprintf08x n) :
    isSpace c = false ∧ c ≠ 0 := by
  obtain ⟨d, hd, rfl⟩ := digit_of_mem_hexDigits hc
  exact ⟨(hexDigit_spec d hd).2.1, (hexDigit_spec d hd).2.2.1⟩

private theorem scanHexDigits_hexDigits (w n : Nat) :
    scanHexDigits (hexDigits (w + 1) n) = some (n % 16 ^ (w + 1)) := by
  have hdigit {c : UInt8} (hc : c ∈ hexDigits (w + 1) n) : (hexDigitValue c).isSome ∧
      c ≠ 120 ∧ c ≠ 88 := by
    obtain ⟨d, hd, rfl⟩ := digit_of_mem_hexDigits hc
    have := hexDigit_spec d hd
    exact ⟨by simp [this.1], this.2.2.2.2.2.1, this.2.2.2.2.2.2⟩
  have hprefix : ¬ ((hexDigits (w + 1) n).take 2 = str "0x" ∨
      (hexDigits (w + 1) n).take 2 = str "0X") := by
    rintro (h | h)
    · have : (120 : UInt8) ∈ (hexDigits (w + 1) n).take 2 := h ▸ (by decide : 120 ∈ str "0x")
      exact (hdigit (List.mem_of_mem_take this)).2.1 rfl
    · have : (88 : UInt8) ∈ (hexDigits (w + 1) n).take 2 := h ▸ (by decide : 88 ∈ str "0X")
      exact (hdigit (List.mem_of_mem_take this)).2.2 rfl
  have htake : (hexDigits (w + 1) n).takeWhile (fun c ↦ (hexDigitValue c).isSome) =
      hexDigits (w + 1) n :=
    List.takeWhile_eq_self_iff.mpr fun c hc ↦ (hdigit hc).1
  have hne : hexDigits (w + 1) n ≠ [] := by simp [hexDigits]
  rw [scanHexDigits, if_neg hprefix, htake, if_neg hne, foldl_hexDigits]

/-- `sscanf` reads back the header that `snprintf` wrote. -/
theorem sscanf08x_snprintf08x (n : UInt32) : sscanf08x (snprintf08x n) = some n := by
  have hzero : 0 ∉ snprintf08x n := fun h ↦ (mem_snprintf08x h).2 rfl
  have hspace : (snprintf08x n).dropWhile isSpace = snprintf08x n := by
    rw [List.dropWhile_eq_self_iff]
    intro h
    simpa using (mem_snprintf08x (List.getElem_mem h)).1
  have hsign (c : UInt8) (hc : (snprintf08x n).head? = some c) : c ≠ 45 ∧ c ≠ 43 := by
    obtain ⟨d, hd, rfl⟩ := digit_of_mem_hexDigits (List.mem_of_mem_head? hc)
    have := hexDigit_spec d hd
    exact ⟨this.2.2.2.1, this.2.2.2.2.1⟩
  have htake : (snprintf08x n).take 8 = snprintf08x n :=
    List.take_of_length_le (length_snprintf08x n).le
  have h45 : (snprintf08x n).head? ≠ some 45 := fun h ↦ (hsign 45 h).1 rfl
  have h43 : (snprintf08x n).head? ≠ some 43 := fun h ↦ (hsign 43 h).2 rfl
  simp only [sscanf08x, cString_of_notMem hzero, hspace, htake, h45, h43, if_false]
  have hlt : n.toNat < 16 ^ (7 + 1) := n.toNat_lt
  rw [snprintf08x, scanHexDigits_hexDigits, Nat.mod_eq_of_lt hlt]
  simp

example : snprintf08x 38 = str "00000026" := by decide

end Vuknob
