import Vuknob.Base.Number

/-!
# Saving and loading controllers

The values of the controllers of a machine in a project file: `Machine::get_controller_xml`,
`src_jni/machine.cc:1513–1552`, and `Machine::setup_using_xml`, `src_jni/machine.cc:1205–1251`, with
the accessors of `Machine::Controller`, `src_jni/machine.cc:240–292`. The document hands back the
names and values of the elements as they have been written.
-/

namespace Vuknob

/-- `Machine::Controller::Type`, `src_jni/machine.hh:139–147`. -/
inductive ControllerType
  | int
  | float
  | double
  | bool
  | string
  | enum
  | sigid
  deriving DecidableEq, Repr

/-- `Machine::Controller`: `min_i` and `max_i` are 0 and 255 for a `c_sigid`. -/
structure Controller where
  name : StdString
  type : ControllerType
  minI : Int32
  maxI : Int32
  deriving DecidableEq

/-- The memory of a machine that its controllers point to, of which every controller has its own:
an `int`, an array of characters, or a floating-point number of a type `R`. -/
structure ControllerMemory (R : Type) where
  word : StdString → Int32
  text : StdString → StdString
  real : StdString → R

/-- A value as the overloads of `get_value` and `set_value` pass it. -/
inductive ControllerValue (R : Type)
  | int (v : Int32)
  | bool (b : Bool)
  | string (s : StdString)
  | real (x : R)
  deriving DecidableEq

/-- What floating-point controllers do with their numbers. -/
structure Reals (R : Type) where
  get : Controller → R → R
  set : Controller → R → R → R
  text : R → StdString
  read : StdString → R

/-- The word at the start of a text, behind white space: what an input stream reads for a string. -/
def firstWord (s : StdString) : StdString := (s.dropWhile isSpace).takeWhile fun c ↦ !isSpace c

/-- `KXML_GET_NUMBER` of `kamo_xml.hh`, which reads an attribute of any type through an input
stream. A string that nothing can be read for is empty, as the default is. -/
structure AttributeReader where
  int : StdString → Int32
  bool : StdString → Bool
  string : StdString → StdString
  int_decimal : ∀ v : Int32, int (decimalInt v.toInt) = v
  bool_zero : bool (str "0") = false
  bool_one : bool (str "1") = true
  string_eq : ∀ s, string s = firstWord s

/-- `STRING_CONTROLLER_SIZE`, `src_jni/dynlib/dynlib.h:76`. -/
def stringControllerSize : Nat := 2048

/-- The array after `strncpy` of a text into all of it. -/
def strncpy (size : Nat) (s : StdString) : StdString :=
  (cString s).take size ++ List.replicate (size - (cString s).length) 0

variable {R : Type}

namespace Controller

/-- `internal_get_value` for the type of the controller. That of a string is the character that
the pointer points to. -/
def internalGetValue (reals : Reals R) (c : Controller) (memory : ControllerMemory R) :
    ControllerValue R :=
  match c.type with
  | .int | .enum | .sigid => .int (memory.word c.name)
  | .bool => .bool (memory.word c.name ≠ 0)
  | .string => .string [(memory.text c.name).headD 0]
  | .float | .double => .real (reals.get c (memory.real c.name))

/-- `internal_set_value`. -/
def internalSetValue (reals : Reals R) (c : Controller) (value : ControllerValue R)
    (memory : ControllerMemory R) : ControllerMemory R :=
  match value with
  | .int v =>
    if c.minI ≤ v ∧ v ≤ c.maxI then { memory with word := Function.update memory.word c.name v }
    else memory
  | .bool b =>
    { memory with word := Function.update memory.word c.name (if b then -1 else 0) }
  | .string s =>
    { memory with text := Function.update memory.text c.name (strncpy stringControllerSize s) }
  | .real x =>
    { memory with real := Function.update memory.real c.name (reals.set c x (memory.real c.name)) }

end Controller

/-- `operator<<` of an output stream. -/
def ControllerValue.toText (reals : Reals R) : ControllerValue R → StdString
  | .int v => decimalInt v.toInt
  | .bool b => if b then str "1" else str "0"
  | .string s => s
  | .real x => reals.text x

/-- The controllers of a machine: `internal_get_controller_names`, and `internal_get_controller`,
which throws for a name that it does not know. -/
structure ControllerTable where
  names : List StdString
  find : StdString → Option Controller
  name_of_find : ∀ {k c}, find k = some c → c.name = k

/-- `SET_CONTROLLER_VALUE` up to the value it sets. -/
def AttributeReader.read (reader : AttributeReader) (reals : Reals R) (c : Controller)
    (s : StdString) : ControllerValue R :=
  match c.type with
  | .int | .enum | .sigid => .int (reader.int s)
  | .bool => .bool (reader.bool s)
  | .string => .string (reader.string s)
  | .float | .double => .real (reals.read s)

namespace ControllerTable

/-- The elements of `get_controller_xml` for these names, with the attributes `name` and `value`. -/
def elements (reals : Reals R) (m : ControllerTable) (memory : ControllerMemory R) :
    List StdString → Option (List (StdString × StdString))
  | [] => some []
  | k :: names => do
    let c ← m.find k
    let rest ← elements reals m memory names
    some ((c.name, (c.internalGetValue reals memory).toText reals) :: rest)

/-- `Machine::get_controller_xml`. -/
def getControllerXml (reals : Reals R) (m : ControllerTable) (memory : ControllerMemory R) :
    Option (List (StdString × StdString)) :=
  elements reals m memory m.names

/-- `Machine::setup_using_xml`: a name that is not known is ignored. -/
def setupUsingXml (reader : AttributeReader) (reals : Reals R) (m : ControllerTable)
    (doc : List (StdString × StdString)) (memory : ControllerMemory R) : ControllerMemory R :=
  doc.foldl (fun memory e ↦
    match m.find e.1 with
    | none => memory
    | some c => c.internalSetValue reals (reader.read reals c e.2) memory) memory

/-! ## One controller -/

/-- The value is one that `set_value` can have put there. -/
def InRange (c : Controller) (memory : ControllerMemory R) : Prop :=
  match c.type with
  | .int | .enum | .sigid => c.minI ≤ memory.word c.name ∧ memory.word c.name ≤ c.maxI
  | .string => ∃ s : StdString, 0 ∉ s ∧ s.length < stringControllerSize ∧
      memory.text c.name = strncpy stringControllerSize s
  | _ => True

/-- The values that a project file is to keep: those that are no floating-point numbers. -/
def Kept (c : Controller) : Prop := c.type ≠ .float ∧ c.type ≠ .double

/-- The text of the controller begins with white space. -/
def StartsWithSpace (c : Controller) (memory : ControllerMemory R) : Prop :=
  c.type = .string ∧ isSpace ((memory.text c.name).headD 0) = true

/-- A memory with the value of a controller as it is loaded from what was saved of another one. -/
def reload (reader : AttributeReader) (reals : Reals R) (c : Controller)
    (memory fresh : ControllerMemory R) : ControllerMemory R :=
  c.internalSetValue reals
    (reader.read reals c ((c.internalGetValue reals memory).toText reals)) fresh

theorem headD_strncpy {size : Nat} (hsize : 0 < size) (s : StdString) :
    (strncpy size s).headD 0 = s.headD 0 := by
  obtain ⟨size, rfl⟩ := Nat.exists_eq_add_one.mpr hsize
  cases s with
  | nil => rfl
  | cons a s =>
    by_cases ha : a = 0
    · subst ha
      rfl
    · rw [strncpy, cString, List.takeWhile_cons_of_pos (by simpa using ha)]
      rfl

/-- A character is read back unless it is white space. -/
theorem firstWord_singleton (c : UInt8) : firstWord [c] = if isSpace c then [] else [c] := by
  by_cases hc : isSpace c = true
  · rw [if_pos hc, firstWord, List.dropWhile_cons_of_pos hc]
    rfl
  · rw [if_neg hc, firstWord, List.dropWhile_cons_of_neg hc,
      List.takeWhile_cons_of_pos (by simpa using hc)]
    rfl

variable {reader : AttributeReader} {reals : Reals R} {c : Controller}
  {memory fresh : ControllerMemory R}

/-- A number that is in range, or a truth value, survives. -/
theorem internalGetValue_reload_of_ne (hkept : Kept c) (hstring : c.type ≠ .string)
    (hrange : InRange c memory) :
    c.internalGetValue reals (reload reader reals c memory fresh) =
      c.internalGetValue reals memory := by
  unfold InRange at hrange
  unfold reload AttributeReader.read Controller.internalGetValue
  cases htype : c.type with
  | int | enum | sigid =>
    rw [htype] at hrange
    simp only [ControllerValue.toText, reader.int_decimal, Controller.internalSetValue]
    rw [if_pos hrange]
    simp only [Function.update_self]
  | bool =>
    simp only [ControllerValue.toText, Controller.internalSetValue, Function.update_self]
    by_cases hzero : memory.word c.name = 0
    · simp [hzero, reader.bool_zero]
    · simp [hzero, reader.bool_one]
  | string => exact absurd htype hstring
  | float => exact absurd htype hkept.1
  | double => exact absurd htype hkept.2

/-- Of a string the first character survives, if it is not white space. -/
theorem internalGetValue_reload_string (hstring : c.type = .string) :
    c.internalGetValue reals (reload reader reals c memory fresh) =
      c.internalGetValue reals memory ↔ isSpace ((memory.text c.name).headD 0) = false := by
  have hsize : 0 < stringControllerSize := by decide
  unfold reload AttributeReader.read Controller.internalGetValue
  simp only [hstring, ControllerValue.toText, reader.string_eq, Controller.internalSetValue,
    Function.update_self, headD_strncpy hsize, firstWord_singleton]
  by_cases hspace : isSpace ((memory.text c.name).headD 0) = true
  · simp only [hspace, if_true, List.headD_nil, Bool.true_eq_false, iff_false]
    intro heq
    have hzero : (memory.text c.name).headD 0 = 0 := by
      simpa using (ControllerValue.string.inj heq).symm
    rw [hzero] at hspace
    exact absurd hspace (by decide)
  · simp only [Bool.not_eq_true] at hspace
    simp only [hspace, Bool.false_eq_true, if_false, List.headD_cons]

/-! ## All controllers -/

/-- Two memories have the same values for the controller of this name. -/
def SameAt (k : StdString) (a b : ControllerMemory R) : Prop :=
  a.word k = b.word k ∧ a.text k = b.text k ∧ a.real k = b.real k

theorem SameAt.trans {k : StdString} {a b d : ControllerMemory R} (h : SameAt k a b)
    (h' : SameAt k b d) : SameAt k a d :=
  ⟨h.1.trans h'.1, h.2.1.trans h'.2.1, h.2.2.trans h'.2.2⟩

theorem SameAt.internalGetValue {a b : ControllerMemory R} (h : SameAt c.name a b) :
    c.internalGetValue reals a = c.internalGetValue reals b := by
  unfold Controller.internalGetValue
  rw [h.1, h.2.1, h.2.2]

/-- A controller is set in its own memory only. -/
theorem sameAt_internalSetValue {k : StdString} (hk : k ≠ c.name) (value : ControllerValue R)
    (a : ControllerMemory R) : SameAt k (c.internalSetValue reals value a) a := by
  cases value with
  | int v =>
    rw [Controller.internalSetValue]
    split
    · exact ⟨Function.update_of_ne hk _ _, rfl, rfl⟩
    · exact ⟨rfl, rfl, rfl⟩
  | bool b => exact ⟨Function.update_of_ne hk _ _, rfl, rfl⟩
  | string s => exact ⟨rfl, Function.update_of_ne hk _ _, rfl⟩
  | real x => exact ⟨rfl, rfl, Function.update_of_ne hk _ _⟩

variable {m : ControllerTable}

theorem elements_cons {k : StdString} {names : List StdString}
    {doc : List (StdString × StdString)} (h : m.elements reals memory (k :: names) = some doc) :
    ∃ c rest, m.find k = some c ∧ m.elements reals memory names = some rest ∧
      doc = (k, (c.internalGetValue reals memory).toText reals) :: rest := by
  obtain ⟨c, hc, h⟩ := Option.bind_eq_some_iff.mp h
  obtain ⟨rest, hrest, h⟩ := Option.bind_eq_some_iff.mp h
  exact ⟨c, rest, hc, hrest, by rw [← Option.some.inj h, m.name_of_find hc]⟩

/-- Loading the first element of a document. -/
theorem setupUsingXml_cons {k : StdString} (hc : m.find k = some c)
    (rest : List (StdString × StdString)) :
    m.setupUsingXml reader reals ((k, (c.internalGetValue reals memory).toText reals) :: rest)
        fresh =
      m.setupUsingXml reader reals rest (reload reader reals c memory fresh) := by
  rw [setupUsingXml, List.foldl_cons]
  simp only [hc]
  rfl

/-- What is not named in the document keeps its value. -/
theorem sameAt_setupUsingXml {names : List StdString} {doc : List (StdString × StdString)}
    (hdoc : m.elements reals memory names = some doc) {k : StdString} (hk : k ∉ names) :
    SameAt k (m.setupUsingXml reader reals doc fresh) fresh := by
  induction names generalizing doc fresh with
  | nil =>
    obtain rfl := Option.some.inj hdoc
    exact ⟨rfl, rfl, rfl⟩
  | cons j names ih =>
    obtain ⟨c, rest, hc, hrest, rfl⟩ := elements_cons hdoc
    rw [List.mem_cons, not_or] at hk
    rw [setupUsingXml_cons hc]
    exact (ih hrest hk.2).trans (sameAt_internalSetValue ((m.name_of_find hc).symm ▸ hk.1) _ _)

/-- What is named in the document has in the end been loaded from what was saved of it. -/
theorem exists_reload {names : List StdString} {doc : List (StdString × StdString)}
    (hdoc : m.elements reals memory names = some doc) {k : StdString} (hk : k ∈ names)
    (hc : m.find k = some c) :
    ∃ before, SameAt k (m.setupUsingXml reader reals doc fresh)
      (reload reader reals c memory before) := by
  induction names generalizing doc fresh with
  | nil => cases hk
  | cons j names ih =>
    obtain ⟨c', rest, hc', hrest, rfl⟩ := elements_cons hdoc
    rw [setupUsingXml_cons hc']
    by_cases hlater : k ∈ names
    · exact ih hrest hlater
    · obtain rfl : k = j := (List.mem_cons.mp hk).resolve_right hlater
      obtain rfl : c = c' := Option.some.inj (hc.symm.trans hc')
      exact ⟨fresh, sameAt_setupUsingXml hrest hlater⟩

/-- Loading a document restores every value on a fresh machine: `get_value` returns what it did. -/
def Restores (reader : AttributeReader) (reals : Reals R) (m : ControllerTable)
    (memory : ControllerMemory R) (doc : List (StdString × StdString)) : Prop :=
  ∀ (fresh : ControllerMemory R), ∀ k ∈ m.names, ∀ c, m.find k = some c → Kept c →
    c.internalGetValue reals (m.setupUsingXml reader reals doc fresh) =
      c.internalGetValue reals memory

/-- The values of the controllers survive saving and loading, exactly if no string begins with
white space. -/
theorem restores_iff (reader : AttributeReader) (reals : Reals R) {m : ControllerTable}
    {memory : ControllerMemory R}
    (hrange : ∀ k ∈ m.names, ∀ c, m.find k = some c → InRange c memory)
    {doc : List (StdString × StdString)} (hdoc : m.getControllerXml reals memory = some doc) :
    Restores reader reals m memory doc ↔
      ∀ k ∈ m.names, ∀ c, m.find k = some c → ¬ StartsWithSpace c memory := by
  have hreload : ∀ fresh, ∀ k ∈ m.names, ∀ c, m.find k = some c → ∃ before,
      c.internalGetValue reals (m.setupUsingXml reader reals doc fresh) =
        c.internalGetValue reals (reload reader reals c memory before) := by
    intro fresh k hk c hc
    obtain ⟨before, hsame⟩ : ∃ before, SameAt k (m.setupUsingXml reader reals doc fresh)
        (reload reader reals c memory before) := exists_reload hdoc hk hc
    exact ⟨before, ((m.name_of_find hc).symm ▸ hsame : SameAt c.name _ _).internalGetValue⟩
  constructor
  · intro h k hk c hc hspace
    obtain ⟨hstring, hspace⟩ := hspace
    have hkept : Kept c := ⟨by rw [hstring]; decide, by rw [hstring]; decide⟩
    obtain ⟨before, hbefore⟩ := hreload memory k hk c hc
    have hget := h memory k hk c hc hkept
    rw [hbefore, internalGetValue_reload_string hstring, hspace] at hget
    cases hget
  · intro h fresh k hk c hc hkept
    obtain ⟨before, hbefore⟩ := hreload fresh k hk c hc
    rw [hbefore]
    by_cases hstring : c.type = .string
    · rw [internalGetValue_reload_string hstring, ← Bool.not_eq_true]
      exact fun hspace ↦ h k hk c hc ⟨hstring, hspace⟩
    · exact internalGetValue_reload_of_ne hkept hstring (hrange k hk c hc)

theorem cString_strncpy {size : Nat} {s : StdString} (hs : (cString s).length ≤ size) :
    cString (strncpy size s) = cString s := by
  rw [strncpy, List.take_of_length_le hs, cString, List.takeWhile_append_of_pos]
  · rw [List.takeWhile_replicate_eq_filter, List.filter_replicate_of_neg (by decide),
      List.append_nil]
  · exact fun c hc ↦ by simpa using ne_of_mem_of_not_mem hc (zero_notMem_cString s)

/-- Of a text, a first character that is not white space is all that comes back. -/
theorem cString_reload {s : StdString} (hstring : c.type = .string) (hzero : 0 ∉ s)
    (htext : memory.text c.name = strncpy stringControllerSize s) :
    cString ((reload reader reals c memory fresh).text c.name) = s ↔
      s.length ≤ 1 ∧ isSpace (s.headD 0) = false := by
  have hword : (cString (firstWord [s.headD 0])).length ≤ stringControllerSize := by
    rw [firstWord_singleton]
    have hone : (if isSpace (s.headD 0) then [] else [s.headD 0]).length ≤ 1 := by
      split <;> simp
    exact ((List.takeWhile_sublist _).length_le.trans hone).trans (by decide)
  have hreload : cString ((reload reader reals c memory fresh).text c.name) =
      cString (firstWord [s.headD 0]) := by
    unfold reload AttributeReader.read Controller.internalGetValue
    simp only [hstring, ControllerValue.toText, reader.string_eq, Controller.internalSetValue,
      Function.update_self, htext, headD_strncpy (show 0 < stringControllerSize by decide)]
    exact cString_strncpy hword
  rw [hreload, firstWord_singleton]
  cases s with
  | nil => exact ⟨fun _ ↦ by decide, fun _ ↦ by decide⟩
  | cons a s =>
    rw [List.mem_cons, not_or] at hzero
    rw [List.headD_cons, List.length_cons]
    cases hspace : isSpace a with
    | true =>
      rw [if_pos rfl]
      constructor
      · intro h
        cases h
      · intro h
        cases h.2
    | false =>
      rw [if_neg (by decide), cString_of_notMem (by simpa using hzero.1)]
      simp [eq_comm]

/-- What input streams make of numbers, truth values and strings. -/
def streamReader : AttributeReader where
  int s := match stoi s with
    | .ok v => v
    | .error _ => 0
  bool s := s ≠ str "0"
  string := firstWord
  int_decimal v := by rw [stoi_decimalInt]
  bool_zero := by decide
  bool_one := by decide
  string_eq _ := rfl

/-- A machine with a number and a text. -/
def numberAndText : ControllerTable where
  names := [str "number", str "text"]
  find k := if k = str "number" then some ⟨k, .int, 0, 100⟩
    else if k = str "text" then some ⟨k, .string, 0, 0⟩ else none
  name_of_find h := by
    split at h
    · exact Option.some.inj h ▸ rfl
    · split at h
      · exact Option.some.inj h ▸ rfl
      · cases h

/-- A machine without floating-point controllers. -/
def noReals : Reals Unit := ⟨fun _ x ↦ x, fun _ _ x ↦ x, fun _ ↦ [], fun _ ↦ ()⟩

/-- The memory of the machine. -/
def holding (v : Int32) (s : StdString) : ControllerMemory Unit :=
  ⟨fun _ ↦ v, fun _ ↦ strncpy stringControllerSize s, fun _ ↦ ()⟩

/-- The result applies to a machine with a number and a text. -/
theorem restores_iff_numberAndText :
    Restores streamReader noReals numberAndText (holding 42 (str "hello"))
        [(str "number", str "42"), (str "text", str "h")] ↔
      ∀ k ∈ numberAndText.names, ∀ c, numberAndText.find k = some c →
        ¬ StartsWithSpace c (holding 42 (str "hello")) := by
  refine restores_iff streamReader noReals (fun k hk c hc ↦ ?_) (by decide +kernel)
  rcases List.mem_cons.mp hk with rfl | hk
  · obtain rfl : ⟨str "number", .int, 0, 100⟩ = c := Option.some.inj hc
    exact ⟨by decide, by decide⟩
  · obtain rfl := List.mem_singleton.mp hk
    obtain rfl : ⟨str "text", .string, 0, 0⟩ = c := Option.some.inj hc
    exact ⟨str "hello", by decide, by decide, rfl⟩

/-- A text that begins with a space is lost. -/
theorem not_restores_space :
    ¬ ∀ doc, numberAndText.getControllerXml noReals (holding 42 (str " x")) = some doc →
      Restores streamReader noReals numberAndText (holding 42 (str " x")) doc := by
  intro h
  have hdoc : numberAndText.getControllerXml noReals (holding 42 (str " x")) =
      some [(str "number", str "42"), (str "text", str " ")] := by decide +kernel
  have hget := h _ hdoc (holding 0 []) (str "text") (by decide) ⟨str "text", .string, 0, 0⟩
    (by decide) ⟨by decide, by decide⟩
  revert hget
  decide +kernel

end ControllerTable
end Vuknob
