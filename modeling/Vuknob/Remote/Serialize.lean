import Vuknob.Base.StdString

/-!
# Escaped strings

Functions of `src_jni/serialize.cc:27–101`. Both copy their argument with `strncpy` into
an array of `size() + 1` characters, so they see it up to its first NUL byte and zeros from
there on. `decode_string` steps over three characters at an escape, past the end of the
array when the escape is cut short; such a read is undefined and yields `none`.
-/

namespace Vuknob.Serialize

/-- The loop of `encode_string` on what is left of `inp`, `src_jni/serialize.cc:73–98`. -/
def encodeLoop : StdString → StdString → StdString → StdString
  | [], tok, output => output ++ tok
  | c :: inp, tok, output =>
    if c = 37 then encodeLoop inp [] (output ++ tok ++ str "%25")
    else if c = 61 then encodeLoop inp [] (output ++ tok ++ str "%3d")
    else if c = 59 then encodeLoop inp [] (output ++ tok ++ str "%3b")
    else encodeLoop inp (tok ++ [c]) output

/-- `encode_string`, `src_jni/serialize.cc:63–101`. -/
def encodeString (uncoded : StdString) : StdString :=
  if uncoded.length = 0 then str "<empty>" else encodeLoop (cString uncoded) [] []

/-- The value of a hexadecimal digit; other characters stand for themselves,
`src_jni/serialize.cc:43–45`. -/
def hexValue (v : UInt8) : UInt8 :=
  if v ≤ 102 ∧ v ≥ 97 then 10 + v - 97
  else if v ≤ 70 ∧ v ≥ 65 then 10 + v - 65
  else if v ≤ 57 ∧ v ≥ 48 then v - 48
  else v

/-- The string of one character that two digits stand for; the empty one for NUL,
`src_jni/serialize.cc:41–50`. -/
def unescaped (v₀ v₁ : UInt8) : StdString := cString [(hexValue v₀ <<< 4) ||| hexValue v₁]

/-- The loop of `decode_string` on what is left of `inp`, `src_jni/serialize.cc:35–59`. -/
def decodeLoop : StdString → StdString → StdString → Option StdString
  | [], _, _ => none
  | c :: inp, tok, output =>
    if c = 0 then some (output ++ tok)
    else if c = 37 then
      match inp with
      | v₀ :: v₁ :: inp => decodeLoop inp [] (output ++ tok ++ unescaped v₀ v₁)
      | _ => none
    else decodeLoop inp (tok ++ [c]) output

/-- `decode_string`, `src_jni/serialize.cc:27–61`. -/
def decodeString (encoded : StdString) : Option StdString :=
  let inp := cString encoded
  decodeLoop (inp ++ List.replicate (encoded.length + 1 - inp.length) 0) [] []

/-! ## What the loops compute -/

/-- The escape of one character, or the character itself. -/
def escape (c : UInt8) : StdString :=
  if c = 37 then str "%25" else if c = 61 then str "%3d" else if c = 59 then str "%3b" else [c]

private theorem encodeLoop_eq (inp tok output : StdString) :
    encodeLoop inp tok output = output ++ tok ++ inp.flatMap escape := by
  induction inp generalizing tok output with
  | nil => simp [encodeLoop]
  | cons c inp ih =>
    rw [encodeLoop, List.flatMap_cons, escape]
    split
    · rw [ih]; simp
    · split
      · rw [ih]; simp
      · split
        · rw [ih]; simp
        · rw [ih]; simp

/-- `encode_string` escapes the characters one by one. -/
theorem encodeString_of_ne {s : StdString} (hs : s ≠ []) :
    encodeString s = (cString s).flatMap escape := by
  rw [encodeString, if_neg (by simpa using hs), encodeLoop_eq]
  simp

/-- `decode_string` without its buffers, on a string that holds no NUL byte. -/
def unescape : StdString → Option StdString
  | [] => some []
  | c :: inp =>
    if c = 37 then
      match inp with
      | v₀ :: v₁ :: inp => (unescape inp).map (unescaped v₀ v₁ ++ ·)
      | _ => none
    else (unescape inp).map (c :: ·)

private theorem decodeLoop_cons {c : UInt8} (h₀ : c ≠ 0) (hc : c ≠ 37)
    (inp tok output : StdString) :
    decodeLoop (c :: inp) tok output = decodeLoop inp (tok ++ [c]) output := by
  rw [decodeLoop.eq_def]
  simp only [h₀, hc, if_false]

private theorem unescape_cons {c : UInt8} (hc : c ≠ 37) (inp : StdString) :
    unescape (c :: inp) = (unescape inp).map (c :: ·) := by
  rw [unescape.eq_def]
  simp only [hc, if_false]

private theorem decodeLoop_eq (inp tok output : StdString) (h : 0 ∉ inp) :
    decodeLoop (inp ++ [0]) tok output = (unescape inp).map (output ++ tok ++ ·) := by
  fun_induction unescape inp generalizing tok output with
  | case1 => simp [decodeLoop]
  | case2 v₀ v₁ inp ih =>
    simp only [List.mem_cons, not_or] at h
    simp only [List.cons_append, decodeLoop]
    rw [ih [] _ h.2.2.2]
    cases unescape inp <;> simp
  | case3 inp hshort =>
    match inp with
    | [] => rfl
    | [v₀] => rfl
    | v₀ :: v₁ :: inp => exact absurd rfl (hshort v₀ v₁ inp)
  | case4 c inp hc ih =>
    simp only [List.mem_cons, not_or] at h
    rw [List.cons_append, decodeLoop_cons (Ne.symm h.1) hc, ih _ _ h.2]
    cases unescape inp <;> simp

/-- `decode_string` undoes the escapes from left to right. -/
theorem decodeString_eq {s : StdString} (h : 0 ∉ s) : decodeString s = unescape s := by
  rw [decodeString, cString_of_notMem h, Nat.add_sub_cancel_left, List.replicate_one,
    decodeLoop_eq s [] [] h]
  cases unescape s <;> simp

/-! ## Round trip -/

private theorem escape_cases (c : UInt8) :
    (c ≠ 37 ∧ c ≠ 61 ∧ c ≠ 59 ∧ escape c = [c]) ∨
      ∃ v₀ v₁, escape c = [37, v₀, v₁] ∧ unescaped v₀ v₁ = [c] ∧
        ∀ d ∈ escape c, d ≠ 61 ∧ d ≠ 59 ∧ d ≠ 0 := by
  by_cases h37 : c = 37
  · subst h37
    have he : escape 37 = [37, 50, 53] := by decide
    exact .inr ⟨50, 53, he, by decide, by simp [he]⟩
  by_cases h61 : c = 61
  · subst h61
    have he : escape 61 = [37, 51, 100] := by decide
    exact .inr ⟨51, 100, he, by decide, by simp [he]⟩
  by_cases h59 : c = 59
  · subst h59
    have he : escape 59 = [37, 51, 98] := by decide
    exact .inr ⟨51, 98, he, by decide, by simp [he]⟩
  exact .inl ⟨h37, h61, h59, by rw [escape, if_neg h37, if_neg h61, if_neg h59]⟩

private theorem unescape_escape (c : UInt8) (t : StdString) :
    unescape (escape c ++ t) = (unescape t).map (c :: ·) := by
  rcases escape_cases c with ⟨h37, -, -, h⟩ | ⟨v₀, v₁, h, hc, -⟩
  · rw [h]
    exact unescape_cons h37 t
  · rw [h, List.cons_append, List.cons_append, List.cons_append, unescape, if_pos rfl, hc]
    rfl

private theorem unescape_take_escape (c : UInt8) {n : Nat} (hn : n < (escape c).length) :
    unescape ((escape c).take n) = some [] ∨ unescape ((escape c).take n) = none := by
  rcases escape_cases c with ⟨-, -, -, h⟩ | ⟨v₀, v₁, h, -, -⟩
  · rw [h] at hn ⊢
    obtain rfl : n = 0 := Nat.lt_one_iff.mp hn
    exact .inl rfl
  · rw [h] at hn ⊢
    match n, hn with
    | 0, _ => exact .inl rfl
    | 1, _ => exact .inr rfl
    | 2, _ => exact .inr rfl

private theorem unescape_flatMap (s t : StdString) :
    unescape (s.flatMap escape ++ t) = (unescape t).map (s ++ ·) := by
  induction s with
  | nil => simp
  | cons c s ih =>
    rw [List.flatMap_cons, List.append_assoc, unescape_escape, ih]
    cases unescape t <;> simp

private theorem mem_escape {c d : UInt8} (hc : c ≠ 0) (hd : d ∈ escape c) :
    d ≠ 61 ∧ d ≠ 59 ∧ d ≠ 0 := by
  rcases escape_cases c with ⟨-, h61, h59, h⟩ | ⟨-, -, -, -, h⟩
  · rw [h, List.mem_singleton] at hd
    subst hd
    exact ⟨h61, h59, hc⟩
  · exact h d hd

/-- An encoded string holds none of the separators and no NUL byte. -/
theorem mem_encodeString {s : StdString} {d : UInt8} (hd : d ∈ encodeString s) :
    d ≠ 61 ∧ d ≠ 59 ∧ d ≠ 0 := by
  by_cases hs : s = []
  · subst hs
    refine ⟨?_, ?_, ?_⟩
    all_goals
      rintro rfl
      exact absurd hd (by decide)
  · rw [encodeString_of_ne hs, List.mem_flatMap] at hd
    obtain ⟨c, hc, hd⟩ := hd
    refine mem_escape ?_ hd
    rintro rfl
    exact zero_notMem_cString s hc

/-- What becomes of a string on its way through `encode_string` and `decode_string`: the
word for the empty string is never turned back, and a NUL byte ends the string. -/
def transmitted (s : StdString) : StdString := if s = [] then str "<empty>" else cString s

/-- `decode_string` after `encode_string` is defined for every string. -/
theorem decodeString_encodeString (s : StdString) :
    decodeString (encodeString s) = some (transmitted s) := by
  rw [decodeString_eq (fun h ↦ (mem_encodeString h).2.2 rfl), transmitted]
  split
  · next hs => subst hs; decide
  · next hs =>
    rw [encodeString_of_ne hs]
    simpa [unescape] using unescape_flatMap (cString s) []

/-- The result of `decode_string` where it is defined. -/
def decoded (s : StdString) : StdString := (decodeString s).getD []

@[simp] theorem decoded_encodeString (s : StdString) : decoded (encodeString s) = transmitted s := by
  rw [decoded, decodeString_encodeString, Option.getD_some]

/-- A string that is not empty and holds no NUL byte arrives as it was sent. -/
theorem transmitted_eq_self {s : StdString} (hs : s ≠ []) (h₀ : 0 ∉ s) : transmitted s = s := by
  rw [transmitted, if_neg hs, cString_of_notMem h₀]

/-- Only such a string does. -/
theorem transmitted_eq_self_iff {s : StdString} : transmitted s = s ↔ s ≠ [] ∧ 0 ∉ s := by
  refine ⟨fun h ↦ ?_, fun h ↦ transmitted_eq_self h.1 h.2⟩
  rw [transmitted] at h
  split at h
  · next hs => exact absurd (h.trans hs) (by decide)
  · next hs => exact ⟨hs, h ▸ zero_notMem_cString s⟩

/-- What arrives holds no character that the string does not hold, and the word lacks. -/
theorem notMem_transmitted {s : StdString} {c : UInt8} (hc : c ∉ str "<empty>") (hs : c ∉ s) :
    c ∉ transmitted s := by
  rw [transmitted]
  split
  · exact hc
  · exact fun hmem ↦ hs ((List.takeWhile_sublist _).subset hmem)

/-- An encoding is the escape of what arrives. -/
theorem encodeString_eq_flatMap (s : StdString) :
    encodeString s = (transmitted s).flatMap escape := by
  rw [transmitted]
  split
  · next hs => subst hs; decide
  · next hs => exact encodeString_of_ne hs

/-- Equal encodings come from strings that arrive alike, and conversely. -/
theorem encodeString_inj {s t : StdString} :
    encodeString s = encodeString t ↔ transmitted s = transmitted t := by
  constructor
  · intro h
    have := decodeString_encodeString s
    rw [h, decodeString_encodeString t] at this
    exact (Option.some.inj this).symm
  · intro h
    rw [encodeString_eq_flatMap, encodeString_eq_flatMap, h]

/-- A string in which nothing is escaped. -/
theorem flatMap_escape_of_plain {s : StdString} (h₃₇ : 37 ∉ s) (h₆₁ : 61 ∉ s) (h₅₉ : 59 ∉ s) :
    s.flatMap escape = s := by
  induction s with
  | nil => rfl
  | cons c s ih =>
    simp only [List.mem_cons, not_or] at h₃₇ h₆₁ h₅₉
    have hc : escape c = [c] := by
      rw [escape, if_neg (Ne.symm h₃₇.1), if_neg (Ne.symm h₆₁.1), if_neg (Ne.symm h₅₉.1)]
    rw [List.flatMap_cons, hc, ih h₃₇.2 h₆₁.2 h₅₉.2, List.singleton_append]

/-- The escape of a percent sign is longer and begins with one. -/
theorem flatMap_escape_of_mem {s : StdString} (h : 37 ∈ s) :
    s.length < (s.flatMap escape).length ∧ 37 ∈ s.flatMap escape := by
  have hle (t : StdString) : t.length ≤ (t.flatMap escape).length := by
    induction t with
    | nil => exact Nat.zero_le _
    | cons c t ih =>
      have hc : 1 ≤ (escape c).length := by
        rcases escape_cases c with ⟨-, -, -, hc⟩ | ⟨v₀, v₁, hc, -, -⟩ <;> simp [hc]
      rw [List.flatMap_cons, List.length_append, List.length_cons]
      omega
  obtain ⟨front, back, rfl⟩ := List.append_of_mem h
  have hescape : escape 37 = [37, 50, 53] := by decide
  have hfront := hle front
  have hback := hle back
  simp only [List.flatMap_append, List.flatMap_cons, hescape, List.length_append, List.length_cons,
    List.length_nil, List.mem_append, List.mem_cons]
  exact ⟨by omega, by simp⟩

/-- Only a string that begins with a NUL byte is encoded as nothing. -/
theorem encodeString_eq_nil_iff {s : StdString} : encodeString s = [] ↔ s.head? = some 0 := by
  cases s with
  | nil => decide
  | cons c s =>
    rw [encodeString_of_ne (List.cons_ne_nil c s), List.head?_cons, Option.some.injEq, cString]
    by_cases hc : c = 0
    · subst hc
      simp
    · rw [List.takeWhile_cons_of_pos (by simpa using hc), List.flatMap_cons]
      rcases escape_cases c with ⟨-, -, -, h⟩ | ⟨v₀, v₁, h, -, -⟩
      · simp [h, hc]
      · simp [h, hc]

/-- An escape is at most three times as long as what it stands for. -/
theorem length_encodeString_le (s : StdString) : (encodeString s).length ≤ 3 * s.length + 7 := by
  by_cases hs : s = []
  · subst hs
    decide
  · have hflat (t : StdString) : (t.flatMap escape).length ≤ 3 * t.length := by
      induction t with
      | nil => simp
      | cons c t ih =>
        have hc : (escape c).length ≤ 3 := by
          rcases escape_cases c with ⟨-, -, -, h⟩ | ⟨v₀, v₁, h, -, -⟩ <;> simp [h]
        rw [List.flatMap_cons, List.length_append, List.length_cons]
        omega
    have hlen : (cString s).length ≤ s.length := (List.takeWhile_prefix _).length_le
    have := hflat (cString s)
    rw [encodeString_of_ne hs]
    omega

/-- A piece cut off the end of an encoding is missed: what is left does not decode to the
string. -/
theorem decodeString_take_ne {s : StdString} (hs : s ≠ []) (h₀ : 0 ∉ s) {n : Nat}
    (hn : n < (encodeString s).length) : decodeString ((encodeString s).take n) ≠ some s := by
  rw [decodeString_eq (fun h ↦ (mem_encodeString (List.mem_of_mem_take h)).2.2 rfl)]
  rw [encodeString_of_ne hs, cString_of_notMem h₀] at hn ⊢
  clear hs h₀
  induction s generalizing n with
  | nil => simp at hn
  | cons c s ih =>
    rw [List.flatMap_cons, List.take_append]
    by_cases hc : n < (escape c).length
    · rw [Nat.sub_eq_zero_of_le hc.le, List.take_zero, List.append_nil]
      rcases unescape_take_escape c hc with h | h <;> simp [h]
    · rw [List.take_of_length_le (by omega), unescape_escape]
      have hrest : n - (escape c).length < (s.flatMap escape).length := by
        rw [List.flatMap_cons, List.length_append] at hn
        omega
      simpa [Option.map_eq_some_iff] using ih hrest

/-! ## Nested encodings -/

/-- `encode_string`, applied `n` times. -/
def encodeNested : Nat → StdString → StdString
  | 0, s => s
  | n + 1, s => encodeString (encodeNested n s)

/-- `decode_string`, applied `n` times. -/
def decodeNested : Nat → StdString → Option StdString
  | 0, s => some s
  | n + 1, s => (decodeString s).bind (decodeNested n)

/-- An encoding that is not empty can be encoded again. -/
theorem encodeNested_clean (n : Nat) {s : StdString} (hs : s ≠ []) (h₀ : 0 ∉ s) :
    encodeNested n s ≠ [] ∧ 0 ∉ encodeNested n s := by
  induction n with
  | zero => exact ⟨hs, h₀⟩
  | succ n ih =>
    obtain ⟨hne, hnul⟩ := ih
    refine ⟨fun hnil ↦ ?_, fun h ↦ (mem_encodeString h).2.2 rfl⟩
    exact hnul (List.mem_of_mem_head? (encodeString_eq_nil_iff.mp hnil))

/-- As many decodings undo nested encodings, the last one first. -/
theorem decodeNested_encodeNested (n : Nat) {s : StdString} (hs : s ≠ []) (h₀ : 0 ∉ s) :
    decodeNested n (encodeNested n s) = some s := by
  induction n with
  | zero => rfl
  | succ n ih =>
    obtain ⟨hne, hnul⟩ := encodeNested_clean n hs h₀
    rw [encodeNested, decodeNested, decodeString_encodeString, transmitted_eq_self hne hnul,
      Option.bind_some]
    exact ih

/-- Encodings hold no separator, however often a string is encoded, and as many decodings give the
string back; so no two strings have the same encoding. -/
theorem encodings_undone {s : StdString} (hs : s ≠ []) (h₀ : 0 ∉ s) :
    ((∀ c ∈ encodeString s, c ≠ 59 ∧ c ≠ 61) ∧ decodeString (encodeString s) = some s ∧
      ∀ t, t ≠ [] → 0 ∉ t → encodeString t = encodeString s → t = s) ∧
    ∀ n, (∀ c ∈ encodeNested (n + 1) s, c ≠ 59 ∧ c ≠ 61) ∧
      decodeNested n (encodeNested n s) = some s ∧
      ∀ t, t ≠ [] → 0 ∉ t → encodeNested n t = encodeNested n s → t = s := by
  have hseparators : ∀ r : StdString, ∀ c ∈ encodeString r, c ≠ 59 ∧ c ≠ 61 := fun r c hc ↦
    ⟨(mem_encodeString hc).2.1, (mem_encodeString hc).1⟩
  refine ⟨⟨hseparators s, ?_, ?_⟩, fun n ↦ ⟨hseparators _, ?_, ?_⟩⟩
  · rw [decodeString_encodeString, transmitted_eq_self hs h₀]
  · intro t ht ht₀ heq
    have htransmitted := encodeString_inj.mp heq
    rwa [transmitted_eq_self ht ht₀, transmitted_eq_self hs h₀] at htransmitted
  · exact decodeNested_encodeNested n hs h₀
  · intro t ht ht₀ heq
    have hback := decodeNested_encodeNested n ht ht₀
    rw [heq, decodeNested_encodeNested n hs h₀] at hback
    exact (Option.some.inj hback).symm

theorem encodings_undone_entry : decodeNested 2 (encodeNested 2 (str "a=50%;")) =
    some (str "a=50%;") :=
  ((encodings_undone (s := str "a=50%;") (by decide) (by decide)).2 2).2.1

end Vuknob.Serialize
