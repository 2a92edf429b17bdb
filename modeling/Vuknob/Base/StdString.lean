import Mathlib.Data.List.TakeWhile
import Std.Data.ExtTreeMap
import Std.Data.ExtTreeSet

/-!
# Strings and exceptions of the source

`std::string` is a sequence of bytes. `std::map` and `std::set` are Lean's extensional
tree maps and sets, which iterate in ascending key order as the source's containers do:
strings bytewise as unsigned values, pointers by address.
-/

namespace Vuknob

/-- `std::string`: any bytes, embedded NUL bytes included. -/
abbrev StdString := List UInt8

/-- The bytes of a literal of the source. -/
def str (s : String) : StdString := s.toUTF8.data.toList

/-- What `s.c_str()` is to code that stops at the first NUL byte. -/
def cString (s : StdString) : StdString := s.takeWhile (· ≠ 0)

/-- A C string holds no NUL byte. -/
theorem zero_notMem_cString (s : StdString) : 0 ∉ cString s := by
  intro h
  have := List.mem_takeWhile_imp h
  simp at this

/-- A string without NUL bytes is its own C string. -/
theorem cString_of_notMem {s : StdString} (h : 0 ∉ s) : cString s = s := by
  rw [cString, List.takeWhile_eq_self_iff]
  intro c hc
  simp only [decide_not, Bool.not_eq_eq_eq_not, Bool.not_true, decide_eq_false_iff_not]
  rintro rfl
  exact h hc

/-- `jException` with its message; every one thrown here has kind `sanity_error`. -/
structure JException where
  message : StdString
  deriving DecidableEq

end Vuknob
