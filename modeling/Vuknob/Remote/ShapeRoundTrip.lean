import Vuknob.Remote.Shapes

/-!
# Which values come back

A value that has been serialised comes back unless it holds an empty string, which arrives as the
word for it, or a map is read into a variable that holds entries: the variable that a container is
read with is one for all elements, and reading a map does not clear it.
-/

namespace Vuknob

namespace Shape

/-! ## Values -/

/-- The elements of a container. -/
abbrev elements {p : Bool} {element : Shape (.item p)} (v : (container element).Value) :
    List element.Value := v

/-- The entries of a map. -/
abbrev entries {p : Bool} {key : Shape (.item false)} {value : Shape (.item p)}
    (v : (map key value).Value) : List (key.Value × value.Value) := v

/-- All strings of a value have a property. -/
def Strings (P : StdString → Prop) : {kind : ShapeKind} → (s : Shape kind) → s.Value → Prop
  | _, .string, v => P v
  | _, .pair first second, v => first.Strings P v.1 ∧ second.Strings P v.2
  | _, .container element, v => ∀ w ∈ elements v, element.Strings P w
  | _, .map key value, v =>
    ∀ entry ∈ entries v,
      key.Strings P entry.1 ∧ value.Strings P entry.2
  | _, .object _ fields, v => fields.Strings P v
  | _, .call type rest, v => type.Strings P v.1 ∧ rest.Strings P v.2
  | _, .array _ element rest, v =>
    (∀ w ∈ v.1.toList, element.Strings P w) ∧ rest.Strings P v.2
  | _, _, _ => True

/-- The entries of all maps are in order. -/
def Sorted : {kind : ShapeKind} → (s : Shape kind) → s.Value → Prop
  | _, .pair first second, v => first.Sorted v.1 ∧ second.Sorted v.2
  | _, .container element, v => ∀ w ∈ elements v, element.Sorted w
  | _, .map key value, v =>
    (entries v).Pairwise (fun e e' ↦ key.less e.1 e'.1 = true) ∧
      ∀ entry ∈ entries v, key.Sorted entry.1 ∧ value.Sorted entry.2
  | _, .object _ fields, v => fields.Sorted v
  | _, .call type rest, v => type.Sorted v.1 ∧ rest.Sorted v.2
  | _, .array _ element rest, v => (∀ w ∈ v.1.toList, element.Sorted w) ∧ rest.Sorted v.2
  | _, _, _ => True

/-- What the variables of a program hold, as far as their strings have no NUL byte. -/
def Valid {kind : ShapeKind} (s : Shape kind) (v : s.Value) : Prop :=
  s.Strings (0 ∉ ·) v ∧ s.Sorted v

/-- No string is empty. -/
def Filled {kind : ShapeKind} (s : Shape kind) (v : s.Value) : Prop := s.Strings (· ≠ []) v

/-- The maps that are read into without being made anew are empty: the variable itself, and those in
its pairs. -/
def Bare : {kind : ShapeKind} → (s : Shape kind) → s.Value → Prop
  | _, .pair first second, v => first.Bare v.1 ∧ second.Bare v.2
  | _, .map _ _, v => entries v = []
  | _, .call type rest, v => type.Bare v.1 ∧ rest.Bare v.2
  | _, .array _ element rest, v => (∀ w ∈ v.1.toList, element.Bare w) ∧ rest.Bare v.2
  | _, _, _ => True

/-- The variable for the elements of a container or of a map is bare whenever there is another
element to be read. -/
def Apart : {kind : ShapeKind} → (s : Shape kind) → s.Value → Prop
  | _, .pair first second, v => first.Apart v.1 ∧ second.Apart v.2
  | _, .container element, v =>
    (∀ w ∈ elements v, element.Apart w) ∧
      ∀ w ∈ (elements v).dropLast, element.Bare w
  | _, .map key value, v =>
    (∀ entry ∈ entries v,
        key.Apart entry.1 ∧ value.Apart entry.2) ∧
      ∀ entry ∈ (entries v).dropLast,
        key.Bare entry.1 ∧ value.Bare entry.2
  | _, .object _ fields, v => fields.Apart v
  | _, .call type rest, v => type.Apart v.1 ∧ rest.Apart v.2
  | _, .array _ element rest, v => (∀ w ∈ v.1.toList, element.Apart w) ∧ rest.Apart v.2
  | _, _, _ => True

/-! ## Types -/

/-- The type is that of a map or of a pair with one; of calls, that of one of them is. -/
def exposes : {kind : ShapeKind} → Shape kind → Bool
  | _, .pair first second => first.exposes || second.exposes
  | _, .map _ _ => true
  | _, .call type rest => type.exposes || rest.exposes
  | _, .array _ element rest => element.exposes || rest.exposes
  | _, _ => false

/-- No type of an element exposes a map. -/
def Separate : {kind : ShapeKind} → Shape kind → Prop
  | _, .pair first second => first.Separate ∧ second.Separate
  | _, .container element => element.exposes = false ∧ element.Separate
  | _, .map key value =>
    (key.exposes = false ∧ value.exposes = false) ∧ key.Separate ∧ value.Separate
  | _, .object _ fields => fields.Separate
  | _, .call type rest => type.Separate ∧ rest.Separate
  | _, .array size element rest => (size = 0 ∨ element.Separate) ∧ rest.Separate
  | _, _ => True

/-- What is deserialised is what arrives. -/
theorem deserialize_serialized (s : Shape .calls) (targets v : s.Value) :
    ∃ stream, s.deserialize targets (s.serialized v) = (.ok (), s.arrived targets v, stream) := by
  rw [deserialize, serialized, ItemSerializer.result, Serialize.decodeString_encodeString]
  by_cases htext : s.write v = []
  · exact ⟨_, s.read_of_write_eq_nil htext targets _⟩
  · have hrestores := s.restores targets v []
    rw [List.append_nil] at hrestores
    rw [Serialize.transmitted_eq_self htext (s.zero_notMem_write v)]
    exact ⟨_, hrestores⟩

/-- The variables are deserialised from what they have been serialised to. -/
def RoundTrips (s : Shape .calls) (targets v : s.Value) : Prop :=
  ∃ stream, s.deserialize targets (s.serialized v) = (.ok (), v, stream)

theorem roundTrips_iff_arrived (s : Shape .calls) (targets v : s.Value) :
    s.RoundTrips targets v ↔ s.arrived targets v = v := by
  obtain ⟨stream, hread⟩ := s.deserialize_serialized targets v
  constructor
  · rintro ⟨stream', h⟩
    exact (Prod.mk.inj (Prod.mk.inj (hread.symm.trans h)).2).1
  · intro h
    rw [h] at hread
    exact ⟨stream, hread⟩

/-! ## Enough -/

theorem bare_initial {kind : ShapeKind} (s : Shape kind) : s.Bare s.initial := by
  induction s with
  | pair _ _ ihFirst ihSecond => exact ⟨ihFirst, ihSecond⟩
  | call _ _ ihType ihRest => exact ⟨ihType, ihRest⟩
  | array size element rest ihElement ihRest =>
    refine ⟨fun w hw ↦ ?_, ihRest⟩
    rwa [Tuple.eq_of_mem_replicate hw]
  | map => rfl
  | _ => trivial

/-- Elements of which each leaves the variable fit for the next one. -/
private theorem arrivals_eq_self {α : Type} {f : α → α → α} {fit : α → Prop} {vs : List α}
    (hf : ∀ v ∈ vs, ∀ old, fit old → f old v = v) (hfit : ∀ v ∈ vs.dropLast, fit v) {old : α}
    (hold : fit old) : arrivals f old vs = vs := by
  induction vs generalizing old with
  | nil => rfl
  | cons v vs ih =>
    obtain ⟨hv, hvs⟩ := List.forall_mem_cons.mp hf
    rw [arrivals, hv old hold]
    cases vs with
    | nil => rfl
    | cons w vs =>
      rw [List.dropLast_cons_cons, List.forall_mem_cons] at hfit
      rw [ih hvs hfit.2 hfit.1]

/-- An entry behind all others. -/
private theorem insertNew_eq_append {K V : Type} {less : K → K → Bool} {entry : K × V}
    {es : List (K × V)} (h : ∀ e ∈ es, less e.1 entry.1 = true) :
    insertNew less entry es = es ++ [entry] := by
  induction es with
  | nil => rfl
  | cons e es ih =>
    obtain ⟨he, hes⟩ := List.forall_mem_cons.mp h
    rw [insertNew, if_pos he, ih hes, List.cons_append]

/-- Entries that come in order. -/
private theorem foldl_insertNew {K V : Type} {less : K → K → Bool} {es es' : List (K × V)}
    (h : (es ++ es').Pairwise fun e e' ↦ less e.1 e'.1 = true) :
    es'.foldl (fun elements entry ↦ insertNew less entry elements) es = es ++ es' := by
  induction es' generalizing es with
  | nil => rw [List.foldl_nil, List.append_nil]
  | cons e es' ih =>
    have hbefore := (List.pairwise_append.mp h).2.2
    have hinsert : insertNew less e es = es ++ [e] :=
      insertNew_eq_append fun e' he' ↦ hbefore e' he' e List.mem_cons_self
    rw [List.append_cons, ← hinsert] at h ⊢
    exact ih h

private theorem zipWith_eq_self {α : Type} {f : α → α → α} {n : Nat} {olds vs : Tuple α n}
    (h : ∀ old ∈ olds.toList, ∀ v ∈ vs.toList, f old v = v) : Tuple.zipWith f olds vs = vs := by
  induction n with
  | zero => rfl
  | succ n ih =>
    obtain ⟨old, olds⟩ := olds
    obtain ⟨v, vs⟩ := vs
    have hhead : f old v = v := h old List.mem_cons_self v List.mem_cons_self
    have htail : Tuple.zipWith f olds vs = vs := ih fun old hold v hv ↦
      h old (List.mem_cons_of_mem _ hold) v (List.mem_cons_of_mem _ hv)
    rw [Tuple.zipWith, hhead, htail]

/-- What is filled and apart comes back into variables whose maps are empty. -/
theorem arrived_eq_self {kind : ShapeKind} {s : Shape kind} {old v : s.Value}
    (hstrings : s.Strings ItemSerializer.Solid v) (hsorted : s.Sorted v) (hapart : s.Apart v)
    (hbare : s.Bare old) : s.arrived old v = v := by
  induction s with
  | string => exact Serialize.transmitted_eq_self hstrings.1 hstrings.2
  | bool | int | unsignedInt | none => rfl
  | pair first second ihFirst ihSecond =>
    exact Prod.ext (ihFirst hstrings.1 hsorted.1 hapart.1 hbare.1)
      (ihSecond hstrings.2 hsorted.2 hapart.2 hbare.2)
  | container element ih =>
    refine arrivals_eq_self (fun w hw old hold ↦ ?_) hapart.2 element.bare_initial
    exact ih (hstrings w hw) (hsorted w hw) (hapart.1 w hw) hold
  | map key value ihKey ihValue =>
    have harrivals : arrivals (fun old entry ↦
        (key.arrived old.1 entry.1, value.arrived old.2 entry.2))
          (key.initial, value.initial) (entries v) = v := by
      refine arrivals_eq_self (fun w hw old hold ↦ ?_) hapart.2
        ⟨key.bare_initial, value.bare_initial⟩
      exact Prod.ext (ihKey (hstrings w hw).1 (hsorted.2 w hw).1 (hapart.1 w hw).1 hold.1)
        (ihValue (hstrings w hw).2 (hsorted.2 w hw).2 (hapart.1 w hw).2 hold.2)
    rw [arrived, harrivals, show old = ([] : List (key.Value × value.Value)) from hbare]
    exact @foldl_insertNew _ _ key.less [] (entries v) hsorted.1
  | object _ fields ih => exact ih hstrings hsorted hapart fields.bare_initial
  | call type rest ihType ihRest =>
    exact Prod.ext (ihType hstrings.1 hsorted.1 hapart.1 hbare.1)
      (ihRest hstrings.2 hsorted.2 hapart.2 hbare.2)
  | array size element rest ihElement ihRest =>
    refine Prod.ext (zipWith_eq_self fun old hold w hw ↦ ?_)
      (ihRest hstrings.2 hsorted.2 hapart.2 hbare.2)
    exact ihElement (hstrings.1 w hw) (hsorted.1 w hw) (hapart.1 w hw) (hbare.1 old hold)

/-! ## Empty strings -/

private theorem mem_arrivals {α : Type} {f : α → α → α} {P : α → Prop} (Q : α → Prop)
    {vs : List α} (hf : ∀ v ∈ vs, ∀ old, Q old → P (f old v)) (hPQ : ∀ v, P v → Q v) {old : α}
    (hold : Q old) : ∀ v ∈ arrivals f old vs, P v := by
  induction vs generalizing old with
  | nil => exact nofun
  | cons v vs ih =>
    obtain ⟨hv, hvs⟩ := List.forall_mem_cons.mp hf
    exact List.forall_mem_cons.mpr ⟨hv old hold, ih hvs (hPQ _ (hv old hold))⟩

private theorem mem_insertNew {K V : Type} {less : K → K → Bool} {entry e : K × V}
    {es : List (K × V)} (h : e ∈ insertNew less entry es) : e = entry ∨ e ∈ es := by
  induction es with
  | nil => exact .inl (List.mem_singleton.mp h)
  | cons e' es ih =>
    rw [insertNew] at h
    split at h
    · cases List.mem_cons.mp h with
      | inl heq => exact .inr (heq ▸ List.mem_cons_self)
      | inr hmem => exact (ih hmem).imp_right (List.mem_cons_of_mem _)
    · split at h
      · exact List.mem_cons.mp h
      · exact .inr h

private theorem mem_foldl_insertNew {K V : Type} {less : K → K → Bool} {P : K × V → Prop}
    {es es' : List (K × V)} (hes : ∀ e ∈ es, P e) (hes' : ∀ e ∈ es', P e) :
    ∀ e ∈ es'.foldl (fun elements entry ↦ insertNew less entry elements) es, P e := by
  induction es' generalizing es with
  | nil => exact hes
  | cons e es' ih =>
    obtain ⟨he, hes'⟩ := List.forall_mem_cons.mp hes'
    refine ih (fun e' he' ↦ ?_) hes'
    cases mem_insertNew he' with
    | inl heq => exact heq ▸ he
    | inr hmem => exact hes e' hmem

private theorem mem_zipWith {α : Type} {f : α → α → α} {P : α → Prop} {n : Nat}
    {olds vs : Tuple α n} (h : ∀ old ∈ olds.toList, ∀ v ∈ vs.toList, P (f old v)) :
    ∀ v ∈ (Tuple.zipWith f olds vs).toList, P v := by
  induction n with
  | zero => exact nofun
  | succ n ih =>
    obtain ⟨old, olds⟩ := olds
    obtain ⟨v, vs⟩ := vs
    refine List.forall_mem_cons.mpr ⟨h old List.mem_cons_self v List.mem_cons_self, ih ?_⟩
    exact fun old hold v hv ↦ h old (List.mem_cons_of_mem _ hold) v (List.mem_cons_of_mem _ hv)

/-- No string that arrives is empty, and those that the variable keeps are not. -/
theorem filled_arrived {kind : ShapeKind} {s : Shape kind} {old v : s.Value}
    (hnul : s.Strings (0 ∉ ·) v) (hold : s.Bare old ∨ s.Filled old) :
    s.Filled (s.arrived old v) := by
  induction s with
  | string =>
    show Serialize.transmitted v ≠ []
    by_cases hv : v = ([] : StdString)
    · rw [hv]
      decide
    · rwa [Serialize.transmitted_eq_self hv hnul]
  | bool | int | unsignedInt | none => trivial
  | pair first second ihFirst ihSecond =>
    exact ⟨ihFirst hnul.1 (hold.imp And.left And.left),
      ihSecond hnul.2 (hold.imp And.right And.right)⟩
  | container element ih =>
    exact mem_arrivals (fun w ↦ element.Bare w ∨ element.Filled w)
      (fun w hw old hold ↦ ih (hnul w hw) hold) (fun _ ↦ .inr) (.inl element.bare_initial)
  | map key value ihKey ihValue =>
    refine mem_foldl_insertNew (fun e he ↦ ?_) ?_
    · cases hold with
      | inl hbare =>
        rw [show old = ([] : List (key.Value × value.Value)) from hbare] at he
        cases he
      | inr hfilled => exact hfilled e he
    · refine mem_arrivals (fun entry : key.Value × value.Value ↦
        (key.Bare entry.1 ∧ value.Bare entry.2) ∨ (key.Filled entry.1 ∧ value.Filled entry.2))
        (fun w hw old hold ↦ ?_) (fun _ ↦ .inr) (.inl ⟨key.bare_initial, value.bare_initial⟩)
      exact ⟨ihKey (hnul w hw).1 (hold.imp And.left And.left),
        ihValue (hnul w hw).2 (hold.imp And.right And.right)⟩
  | object _ fields ih => exact ih hnul (.inl fields.bare_initial)
  | call type rest ihType ihRest =>
    exact ⟨ihType hnul.1 (hold.imp And.left And.left),
      ihRest hnul.2 (hold.imp And.right And.right)⟩
  | array size element rest ihElement ihRest =>
    refine ⟨mem_zipWith fun old' hold' w hw ↦ ihElement (hnul.1 w hw) ?_,
      ihRest hnul.2 (hold.imp And.right And.right)⟩
    exact hold.imp (fun h ↦ h.1 old' hold') (fun h ↦ h.1 old' hold')

/-! ## Types without reused maps -/

theorem bare_of_exposes {kind : ShapeKind} {s : Shape kind} (h : s.exposes = false)
    (v : s.Value) : s.Bare v := by
  induction s with
  | pair first second ihFirst ihSecond =>
    obtain ⟨hfirst, hsecond⟩ := Bool.or_eq_false_iff.mp h
    exact ⟨ihFirst hfirst v.1, ihSecond hsecond v.2⟩
  | call type rest ihType ihRest =>
    obtain ⟨htype, hrest⟩ := Bool.or_eq_false_iff.mp h
    exact ⟨ihType htype v.1, ihRest hrest v.2⟩
  | array size element rest ihElement ihRest =>
    obtain ⟨helement, hrest⟩ := Bool.or_eq_false_iff.mp h
    exact ⟨fun w _ ↦ ihElement helement w, ihRest hrest v.2⟩
  | map => cases h
  | _ => trivial

/-- In a type in which no element exposes a map, the elements of every value are apart. -/
theorem Separate.apart {kind : ShapeKind} {s : Shape kind} (h : s.Separate) (v : s.Value) :
    s.Apart v := by
  induction s with
  | string | bool | int | unsignedInt | none => trivial
  | pair first second ihFirst ihSecond => exact ⟨ihFirst h.1 v.1, ihSecond h.2 v.2⟩
  | container element ih => exact ⟨fun w _ ↦ ih h.2 w, fun w _ ↦ bare_of_exposes h.1 w⟩
  | map key value ihKey ihValue =>
    exact ⟨fun w _ ↦ ⟨ihKey h.2.1 w.1, ihValue h.2.2 w.2⟩,
      fun w _ ↦ ⟨bare_of_exposes h.1.1 w.1, bare_of_exposes h.1.2 w.2⟩⟩
  | object _ fields ih => exact ih h v
  | call type rest ihType ihRest => exact ⟨ihType h.1 v.1, ihRest h.2 v.2⟩
  | array size element rest ihElement ihRest =>
    refine ⟨fun w hw ↦ ?_, ihRest h.2 v.2⟩
    cases h.1 with
    | inl hzero => subst hzero; cases hw
    | inr helement => exact ihElement helement w

/-! ## Types with reused maps -/

/-- What holds of the strings of a value. -/
theorem Strings.imp₂ {P Q R : StdString → Prop} (himp : ∀ text, P text → Q text → R text)
    {kind : ShapeKind} {s : Shape kind} {v : s.Value} (hP : s.Strings P v) (hQ : s.Strings Q v) :
    s.Strings R v := by
  induction s with
  | string => exact himp v hP hQ
  | bool | int | unsignedInt | none => trivial
  | pair first second ihFirst ihSecond => exact ⟨ihFirst hP.1 hQ.1, ihSecond hP.2 hQ.2⟩
  | container element ih => exact fun w hw ↦ ih (hP w hw) (hQ w hw)
  | map key value ihKey ihValue =>
    exact fun w hw ↦ ⟨ihKey (hP w hw).1 (hQ w hw).1, ihValue (hP w hw).2 (hQ w hw).2⟩
  | object _ fields ih => exact ih hP hQ
  | call type rest ihType ihRest => exact ⟨ihType hP.1 hQ.1, ihRest hP.2 hQ.2⟩
  | array size element rest ihElement ihRest =>
    exact ⟨fun w hw ↦ ihElement (hP.1 w hw) (hQ.1 w hw), ihRest hP.2 hQ.2⟩

/-- A value without empty strings. -/
def low : {kind : ShapeKind} → (s : Shape kind) → s.Value
  | _, .string => str "a"
  | _, .bool => false
  | _, .int => (0 : Int32)
  | _, .unsignedInt => (0 : UInt32)
  | _, .pair first second => (first.low, second.low)
  | _, .container element => ([] : List element.Value)
  | _, .map key value => [(key.low, value.low)]
  | _, .object _ fields => fields.low
  | _, .none => ()
  | _, .call type rest => (type.low, rest.low)
  | _, .array size element rest => (Tuple.replicate element.low size, rest.low)

/-- A greater one, if there is one; its maps do not hold the entries of the other. -/
def high : {kind : ShapeKind} → (s : Shape kind) → s.Value
  | _, .string => str "b"
  | _, .bool => true
  | _, .int => (1 : Int32)
  | _, .unsignedInt => (1 : UInt32)
  | _, .pair first second => (first.high, second.high)
  | _, .container element => [element.low]
  | _, .map key value => [(key.high, value.low)]
  | _, s => s.low

/-- The value has no empty string and no NUL byte, its maps are in order and its elements apart. -/
def Good {kind : ShapeKind} (s : Shape kind) (v : s.Value) : Prop :=
  s.Strings ItemSerializer.Solid v ∧ s.Sorted v ∧ s.Apart v

theorem Good.arrived_eq_self {kind : ShapeKind} {s : Shape kind} {old v : s.Value} (h : s.Good v)
    (hbare : s.Bare old) : s.arrived old v = v :=
  Shape.arrived_eq_self h.1 h.2.1 h.2.2 hbare

private theorem good_pair {p : Bool} {first second : Shape (.item p)} {u : first.Value}
    {v : second.Value} (hu : first.Good u) (hv : second.Good v) : (pair first second).Good (u, v) :=
  ⟨⟨hu.1, hv.1⟩, ⟨hu.2.1, hv.2.1⟩, hu.2.2, hv.2.2⟩

private theorem good_element {p : Bool} {element : Shape (.item p)} {v : element.Value}
    (hv : element.Good v) : (container element).Good [v] :=
  ⟨List.forall_mem_singleton.mpr hv.1, List.forall_mem_singleton.mpr hv.2.1,
    List.forall_mem_singleton.mpr hv.2.2, nofun⟩

private theorem good_entry {p : Bool} {key : Shape (.item false)} {value : Shape (.item p)}
    {u : key.Value} {v : value.Value} (hu : key.Good u) (hv : value.Good v) :
    (map key value).Good [(u, v)] :=
  ⟨List.forall_mem_singleton.mpr ⟨hu.1, hv.1⟩,
    ⟨List.pairwise_singleton .., List.forall_mem_singleton.mpr ⟨hu.2.1, hv.2.1⟩⟩,
    List.forall_mem_singleton.mpr ⟨hu.2.2, hv.2.2⟩, nofun⟩

theorem good_low {kind : ShapeKind} (s : Shape kind) : s.Good s.low := by
  induction s with
  | string =>
    have hsolid : ItemSerializer.Solid (str "a") := ⟨by decide, by decide⟩
    exact ⟨hsolid, trivial, trivial⟩
  | bool | int | unsignedInt | none => exact ⟨trivial, trivial, trivial⟩
  | pair first second ihFirst ihSecond => exact good_pair ihFirst ihSecond
  | container element ih => exact ⟨nofun, nofun, nofun, nofun⟩
  | map key value ihKey ihValue => exact good_entry ihKey ihValue
  | object _ fields ih => exact ih
  | call type rest ihType ihRest =>
    exact ⟨⟨ihType.1, ihRest.1⟩, ⟨ihType.2.1, ihRest.2.1⟩, ihType.2.2, ihRest.2.2⟩
  | array size element rest ihElement ihRest =>
    have hgood : ∀ w ∈ (Tuple.replicate element.low size).toList, element.Good w :=
      fun w hw ↦ Tuple.eq_of_mem_replicate hw ▸ ihElement
    exact ⟨⟨fun w hw ↦ (hgood w hw).1, ihRest.1⟩, ⟨fun w hw ↦ (hgood w hw).2.1, ihRest.2.1⟩,
      fun w hw ↦ (hgood w hw).2.2, ihRest.2.2⟩

theorem good_high {kind : ShapeKind} (s : Shape kind) : s.Good s.high := by
  induction s with
  | string =>
    have hsolid : ItemSerializer.Solid (str "b") := ⟨by decide, by decide⟩
    exact ⟨hsolid, trivial, trivial⟩
  | bool | int | unsignedInt => exact ⟨trivial, trivial, trivial⟩
  | pair first second ihFirst ihSecond => exact good_pair ihFirst ihSecond
  | container element => exact good_element element.good_low
  | map key value ihKey ihValue => exact good_entry ihKey value.good_low
  | _ => exact good_low _

theorem less_low_high {kind : ShapeKind} {s : Shape kind} (hkind : kind = .item false) :
    s.less s.low s.high = true := by
  induction s with
  | string | bool | int | unsignedInt => rfl
  | pair first second ihFirst ihSecond =>
    exact Bool.or_eq_true_iff.mpr (.inl (ihFirst hkind))
  | container element => rfl
  | map key value ihKey ihValue =>
    have hentry : pairLess key.less value.less (key.low, value.low) (key.high, value.low) = true :=
      Bool.or_eq_true_iff.mpr (.inl (ihKey rfl))
    exact Bool.or_eq_true_iff.mpr (.inl hentry)
  | _ => cases hkind

private theorem arrived_low_high_of_kind {kind : ShapeKind} {s : Shape kind}
    (hkind : kind ≠ .calls) (hexposes : s.exposes = true) : s.arrived s.low s.high ≠ s.high := by
  induction s with
  | string | bool | int | unsignedInt | container | object => cases hexposes
  | none | call | array => exact absurd rfl hkind
  | pair first second ihFirst ihSecond =>
    intro h
    obtain ⟨hfirst, hsecond⟩ := Prod.mk.inj h
    cases Bool.or_eq_true_iff.mp hexposes with
    | inl hexposes => exact ihFirst hkind hexposes hfirst
    | inr hexposes => exact ihSecond hkind hexposes hsecond
  | map key value =>
    intro h
    have harrived : (map key value).arrived (low (map key value)) (high (map key value)) =
        insertNew key.less (key.high, value.arrived value.initial value.low)
          [(key.low, value.low)] := by
      rw [← key.good_high.arrived_eq_self key.bare_initial]
      rfl
    rw [harrived, insertNew, if_pos (less_low_high rfl)] at h
    cases congrArg List.length h

/-- The entry that a map is left with is not one of the greater value. -/
theorem arrived_low_high {p : Bool} {s : Shape (.item p)} (hexposes : s.exposes = true) :
    s.arrived s.low s.high ≠ s.high :=
  arrived_low_high_of_kind ShapeKind.noConfusion hexposes

/-- An entry that is inserted behind another one is there afterwards. -/
private theorem eq_of_insertNew_eq {K V : Type} {less : K → K → Bool} {e e' e'' : K × V}
    (h : insertNew less e' [e] = [e, e'']) : e' = e'' := by
  rw [insertNew] at h
  split at h
  · exact List.head_eq_of_cons_eq (List.tail_eq_of_cons_eq h)
  · next hless =>
    split at h
    · next hless' =>
      obtain rfl : e' = e := List.head_eq_of_cons_eq h
      exact absurd hless' hless
    · cases congrArg List.length h

/-- A value without empty strings that does not come back. -/
def Lost {kind : ShapeKind} (s : Shape kind) (v : s.Value) : Prop :=
  (s.Strings ItemSerializer.Solid v ∧ s.Sorted v) ∧ s.arrived s.initial v ≠ v

/-- The second of two elements holds what the first one has left. -/
private theorem lost_elements {p : Bool} {element : Shape (.item p)}
    (hexposes : element.exposes = true) : (container element).Lost [element.low, element.high] := by
  refine ⟨⟨?_, ?_⟩, fun h ↦ ?_⟩
  · exact List.forall_mem_cons.mpr ⟨element.good_low.1,
      List.forall_mem_singleton.mpr element.good_high.1⟩
  · exact List.forall_mem_cons.mpr ⟨element.good_low.2.1,
      List.forall_mem_singleton.mpr element.good_high.2.1⟩
  · have hlow := element.good_low.arrived_eq_self element.bare_initial
    have hhigh := List.head_eq_of_cons_eq (List.tail_eq_of_cons_eq h)
    rw [hlow] at hhigh
    exact arrived_low_high hexposes hhigh

private theorem lost_entries {p : Bool} {key : Shape (.item false)} {value : Shape (.item p)}
    (hexposes : key.exposes = true ∨ value.exposes = true) :
    (map key value).Lost [(key.low, value.low), (key.high, value.high)] := by
  refine ⟨⟨?_, ?_, ?_⟩, fun h ↦ ?_⟩
  · exact List.forall_mem_cons.mpr ⟨⟨key.good_low.1, value.good_low.1⟩,
      List.forall_mem_singleton.mpr ⟨key.good_high.1, value.good_high.1⟩⟩
  · exact List.pairwise_pair.mpr (less_low_high rfl)
  · exact List.forall_mem_cons.mpr ⟨⟨key.good_low.2.1, value.good_low.2.1⟩,
      List.forall_mem_singleton.mpr ⟨key.good_high.2.1, value.good_high.2.1⟩⟩
  · have hkey := key.good_low.arrived_eq_self key.bare_initial
    have hvalue := value.good_low.arrived_eq_self value.bare_initial
    have hentries : insertNew key.less
        (key.arrived (key.arrived key.initial key.low) key.high,
          value.arrived (value.arrived value.initial value.low) value.high)
        [(key.arrived key.initial key.low, value.arrived value.initial value.low)] =
          [(key.low, value.low), (key.high, value.high)] := h
    rw [hkey, hvalue] at hentries
    obtain ⟨hkey, hvalue⟩ := Prod.mk.inj (eq_of_insertNew_eq hentries)
    cases hexposes with
    | inl hexposes => exact arrived_low_high hexposes hkey
    | inr hexposes => exact arrived_low_high hexposes hvalue

/-- In a type in which an element exposes a map, a value is lost. -/
theorem exists_lost {kind : ShapeKind} {s : Shape kind} (h : ¬ s.Separate) : ∃ v, s.Lost v := by
  induction s with
  | string | bool | int | unsignedInt | none => exact absurd trivial h
  | pair first second ihFirst ihSecond =>
    cases not_and_or.mp h with
    | inl hfirst =>
      obtain ⟨v, ⟨hstrings, hsorted⟩, hne⟩ := ihFirst hfirst
      exact ⟨(v, second.low), ⟨⟨hstrings, second.good_low.1⟩, hsorted, second.good_low.2.1⟩,
        fun heq ↦ hne (congrArg Prod.fst heq)⟩
    | inr hsecond =>
      obtain ⟨v, ⟨hstrings, hsorted⟩, hne⟩ := ihSecond hsecond
      exact ⟨(first.low, v), ⟨⟨first.good_low.1, hstrings⟩, first.good_low.2.1, hsorted⟩,
        fun heq ↦ hne (congrArg Prod.snd heq)⟩
  | container element ih =>
    cases hexposes : element.exposes with
    | true => exact ⟨_, lost_elements hexposes⟩
    | false =>
      obtain ⟨v, ⟨hstrings, hsorted⟩, hne⟩ := ih fun hseparate ↦ h ⟨hexposes, hseparate⟩
      exact ⟨[v], ⟨List.forall_mem_singleton.mpr hstrings, List.forall_mem_singleton.mpr hsorted⟩,
        fun heq ↦ hne (List.head_eq_of_cons_eq heq)⟩
  | map key value ihKey ihValue =>
    by_cases hexposes : key.exposes = true ∨ value.exposes = true
    · exact ⟨_, lost_entries hexposes⟩
    · simp only [not_or, Bool.not_eq_true] at hexposes
      cases not_and_or.mp fun hseparate ↦ h ⟨hexposes, hseparate⟩ with
      | inl hkey =>
        obtain ⟨v, ⟨hstrings, hsorted⟩, hne⟩ := ihKey hkey
        refine ⟨[(v, value.low)], ⟨List.forall_mem_singleton.mpr ⟨hstrings, value.good_low.1⟩,
          List.pairwise_singleton .., List.forall_mem_singleton.mpr
            ⟨hsorted, value.good_low.2.1⟩⟩, fun heq ↦ ?_⟩
        exact hne (congrArg Prod.fst (List.head_eq_of_cons_eq heq))
      | inr hvalue =>
        obtain ⟨v, ⟨hstrings, hsorted⟩, hne⟩ := ihValue hvalue
        refine ⟨[(key.low, v)], ⟨List.forall_mem_singleton.mpr ⟨key.good_low.1, hstrings⟩,
          List.pairwise_singleton .., List.forall_mem_singleton.mpr
            ⟨key.good_low.2.1, hsorted⟩⟩, fun heq ↦ ?_⟩
        exact hne (congrArg Prod.snd (List.head_eq_of_cons_eq heq))
  | object _ fields ih => exact ih h
  | call type rest ihType ihRest =>
    cases not_and_or.mp h with
    | inl htype =>
      obtain ⟨v, ⟨hstrings, hsorted⟩, hne⟩ := ihType htype
      exact ⟨(v, rest.low), ⟨⟨hstrings, rest.good_low.1⟩, hsorted, rest.good_low.2.1⟩,
        fun heq ↦ hne (congrArg Prod.fst heq)⟩
    | inr hrest =>
      obtain ⟨v, ⟨hstrings, hsorted⟩, hne⟩ := ihRest hrest
      exact ⟨(type.low, v), ⟨⟨type.good_low.1, hstrings⟩, type.good_low.2.1, hsorted⟩,
        fun heq ↦ hne (congrArg Prod.snd heq)⟩
  | array size element rest ihElement ihRest =>
    obtain ⟨⟨hlow, -⟩, ⟨hlow', -⟩, -⟩ := (array size element rest).good_low
    cases not_and_or.mp h with
    | inl hnot =>
      obtain ⟨hsize, helement⟩ := not_or.mp hnot
      clear hnot
      obtain ⟨n, rfl⟩ := Nat.exists_eq_succ_of_ne_zero hsize
      obtain ⟨v, ⟨hstrings, hsorted⟩, hne⟩ := ihElement helement
      refine ⟨((v, Tuple.replicate element.low n), rest.low), ⟨⟨?_, rest.good_low.1⟩, ?_,
        rest.good_low.2.1⟩, fun heq ↦ hne (congrArg (fun w ↦ w.1.1) heq)⟩
      · exact List.forall_mem_cons.mpr ⟨hstrings, (List.forall_mem_cons.mp hlow).2⟩
      · exact List.forall_mem_cons.mpr ⟨hsorted, (List.forall_mem_cons.mp hlow').2⟩
    | inr hrest =>
      obtain ⟨v, ⟨hstrings, hsorted⟩, hne⟩ := ihRest hrest
      exact ⟨(Tuple.replicate element.low size, v), ⟨⟨hlow, hstrings⟩, hlow', hsorted⟩,
        fun heq ↦ hne (congrArg Prod.snd heq)⟩

/-- A filled value whose elements are apart comes back into variables whose maps are empty, and only
filled values do. The types of which all filled values come back are those in which no element
exposes a map. In any case each call takes exactly its own item. -/
theorem items_round_trip (s : Shape .calls) :
    (∀ targets v, s.Bare targets → s.Valid v →
        (s.Filled v → s.Apart v → s.RoundTrips targets v) ∧
          (s.RoundTrips targets v → s.Filled v)) ∧
      ((∀ v, s.Valid v → s.Filled v → s.RoundTrips s.initial v) ↔ s.Separate) ∧
      ∀ {kind : ShapeKind} (t : Shape kind) (old v : t.Value) (rest : StdString),
        ∃ new, t.read old (.front (t.write v ++ rest)) = (.ok (), new, .front rest) := by
  have henough : ∀ targets v, s.Bare targets → s.Valid v → s.Filled v → s.Apart v →
      s.RoundTrips targets v := by
    intro targets v hbare hvalid hfilled hapart
    have hstrings : s.Strings ItemSerializer.Solid v :=
      hfilled.imp₂ (fun _ hne hnul ↦ ⟨hne, hnul⟩) hvalid.1
    exact (s.roundTrips_iff_arrived targets v).mpr (arrived_eq_self hstrings hvalid.2 hapart hbare)
  refine ⟨fun targets v hbare hvalid ↦ ⟨henough targets v hbare hvalid, fun h ↦ ?_⟩, ⟨fun h ↦ ?_,
    fun h v hvalid hfilled ↦ henough _ v s.bare_initial hvalid hfilled (h.apart v)⟩,
    fun t old v rest ↦ ⟨_, t.restores old v rest⟩⟩
  · rw [← (s.roundTrips_iff_arrived targets v).mp h]
    exact filled_arrived hvalid.1 (.inl hbare)
  · by_contra hseparate
    obtain ⟨v, ⟨hstrings, hsorted⟩, hne⟩ := exists_lost hseparate
    refine hne ((s.roundTrips_iff_arrived _ v).mp (h v ⟨?_, hsorted⟩ ?_))
    · exact hstrings.imp₂ (fun _ hsolid _ ↦ hsolid.2) hstrings
    · exact hstrings.imp₂ (fun _ hsolid _ ↦ hsolid.1) hstrings

/-- An empty string comes back as the word for it. The second map of a vector, which is empty, comes
back with the entry of the first one. -/
theorem not_items_round_trip :
    let name : Shape .calls := call (@string false) none
    let maps : Shape .calls := call (container (map int (@int false))) none
    let written : List (List (Int32 × Int32)) := [[(1, 2)], []]
    let received : List (List (Int32 × Int32)) := [[(1, 2)], [(1, 2)]]
    (name.Valid ([], ()) ∧ ¬ name.RoundTrips name.initial ([], ()) ∧
        name.arrived name.initial ([], ()) = (str "<empty>", ())) ∧
      maps.Valid (written, ()) ∧ ¬ maps.RoundTrips maps.initial (written, ()) ∧
        maps.arrived maps.initial (written, ()) = (received, ()) := by
  intro name maps written received
  refine ⟨⟨?_, fun h ↦ ?_, rfl⟩, ?_, fun h ↦ ?_, rfl⟩
  · exact ⟨⟨List.not_mem_nil, trivial⟩, trivial, trivial⟩
  · have heq : str "<empty>" = [] := congrArg Prod.fst ((name.roundTrips_iff_arrived _ _).mp h)
    exact absurd heq (by decide)
  · refine ⟨⟨fun w _ e _ ↦ ⟨trivial, trivial⟩, trivial⟩, ?_, trivial⟩
    refine List.forall_mem_cons.mpr ⟨⟨List.pairwise_singleton .., fun e _ ↦ ⟨trivial, trivial⟩⟩, ?_⟩
    exact List.forall_mem_singleton.mpr ⟨.nil, nofun⟩
  · have heq : received = written := congrArg Prod.fst ((maps.roundTrips_iff_arrived _ _).mp h)
    exact absurd heq (by decide)

end Shape

end Vuknob
