import Vuknob.Remote.Items

/-!
# Serialised variables

What `ItemSerializer` and `ItemDeserializer` do when `process` is called on one variable after the
other, `src_jni/serialize.hh:44–357`, for variables of all types that the calls can be made with
but floating-point numbers. A variable that is not assigned to keeps what it holds, also where an
exception ends the call.
-/

namespace Vuknob

open Library

/-! ## Types and values -/

/-- `serialize_identifier` of a class. -/
structure SerializeIdentifier where
  text : StdString
  plain : 59 ∉ text ∧ 0 ∉ text

/-- A variable, which may or may not hold pointers, or a sequence of calls. -/
inductive ShapeKind
  | item (pointers : Bool)
  | calls

/-- The type of a variable, or those of the variables in a sequence of calls. A container is a
vector or a list. The class of an object may contain pointers to itself; as an object does not
contain itself, its type can be written out as far as it goes. Pointers have no order that a value
would determine: the keys of a map hold none. -/
inductive Shape : ShapeKind → Type
  | string {p : Bool} : Shape (.item p)
  | bool {p : Bool} : Shape (.item p)
  | int {p : Bool} : Shape (.item p)
  | unsignedInt {p : Bool} : Shape (.item p)
  | pair {p : Bool} (first second : Shape (.item p)) : Shape (.item p)
  | container {p : Bool} (element : Shape (.item p)) : Shape (.item p)
  | map {p : Bool} (key : Shape (.item false)) (value : Shape (.item p)) : Shape (.item p)
  | object (serializeIdentifier : SerializeIdentifier) (fields : Shape .calls) : Shape (.item true)
  | none : Shape .calls
  | call {p : Bool} (type : Shape (.item p)) (rest : Shape .calls) : Shape .calls
  | array {p : Bool} (size : Nat) (element : Shape (.item p)) (rest : Shape .calls) : Shape .calls

/-- The elements of an array. -/
def Tuple (α : Type) : Nat → Type
  | 0 => Unit
  | n + 1 => α × Tuple α n

namespace Tuple

variable {α β γ : Type}

def replicate (a : α) : (n : Nat) → Tuple α n
  | 0 => ()
  | n + 1 => (a, replicate a n)

def toList : {n : Nat} → Tuple α n → List α
  | 0, _ => []
  | _ + 1, (a, as) => a :: toList as

def zipWith (f : α → β → γ) : {n : Nat} → Tuple α n → Tuple β n → Tuple γ n
  | 0, _, _ => ()
  | _ + 1, (a, as), (b, bs) => (f a b, zipWith f as bs)

theorem toList_inj {n : Nat} {as bs : Tuple α n} :
    as.toList = bs.toList ↔ as = bs := by
  induction n with
  | zero => exact iff_of_true rfl rfl
  | succ n ih =>
    obtain ⟨a, as⟩ := as
    obtain ⟨b, bs⟩ := bs
    rw [toList, toList, List.cons.injEq, ih]
    exact ⟨fun ⟨ha, has⟩ ↦ ha ▸ has ▸ rfl, fun heq ↦ Prod.mk.inj heq⟩

theorem eq_of_mem_replicate {a b : α} {n : Nat} (h : b ∈ (replicate a n).toList) : b = a := by
  induction n with
  | zero => cases h
  | succ n ih =>
    cases List.mem_cons.mp h with
    | inl heq => exact heq
    | inr hmem => exact ih hmem

end Tuple

/-- `std::lexicographical_compare`. -/
def lexLess {α : Type} (less : α → α → Bool) : List α → List α → Bool
  | _, [] => false
  | [], _ :: _ => true
  | a :: as, b :: bs => less a b || (!less b a && lexLess less as bs)

/-- The comparison of pairs. -/
def pairLess {α β : Type} (less : α → α → Bool) (less' : β → β → Bool) (u v : α × β) : Bool :=
  less u.1 v.1 || (!less v.1 u.1 && less' u.2 v.2)

/-- `insert` of a `std::map`. -/
def insertNew {K V : Type} (less : K → K → Bool) (entry : K × V) : List (K × V) → List (K × V)
  | [] => [entry]
  | e :: es =>
    if less e.1 entry.1 then e :: insertNew less entry es
    else if less entry.1 e.1 then entry :: e :: es
    else e :: es

namespace Shape

/-- What a variable can hold; a map is the list of its entries, an object its fields. -/
def Value : {kind : ShapeKind} → Shape kind → Type
  | _, .string => StdString
  | _, .bool => Bool
  | _, .int => Int32
  | _, .unsignedInt => UInt32
  | _, .pair first second => first.Value × second.Value
  | _, .container element => List element.Value
  | _, .map key value => List (key.Value × value.Value)
  | _, .object _ fields => fields.Value
  | _, .none => Unit
  | _, .call type rest => type.Value × rest.Value
  | _, .array size element rest => Tuple element.Value size × rest.Value

/-- What a new variable holds. -/
def initial : {kind : ShapeKind} → (s : Shape kind) → s.Value
  | _, .string => ([] : StdString)
  | _, .bool => false
  | _, .int => (0 : Int32)
  | _, .unsignedInt => (0 : UInt32)
  | _, .pair first second => (first.initial, second.initial)
  | _, .container element => ([] : List element.Value)
  | _, .map key value => ([] : List (key.Value × value.Value))
  | _, .object _ fields => fields.initial
  | _, .none => ()
  | _, .call type rest => (type.initial, rest.initial)
  | _, .array size element rest => (Tuple.replicate element.initial size, rest.initial)

/-- `operator<` of the types that hold no pointers. -/
def less : {kind : ShapeKind} → (s : Shape kind) → s.Value → s.Value → Bool
  | _, .string, u, v => lexLess (fun c d : UInt8 ↦ decide (c < d)) u v
  | _, .bool, u, v => !u && v
  | _, .int, u, v => (fun u v : Int32 ↦ decide (u < v)) u v
  | _, .unsignedInt, u, v => (fun u v : UInt32 ↦ decide (u < v)) u v
  | _, .pair first second, u, v => pairLess first.less second.less u v
  | _, .container element, u, v => lexLess element.less u v
  | _, .map key value, u, v => lexLess (pairLess key.less value.less) u v
  | _, _, _, _ => false

/-! ## Writing -/

/-- What the calls of `process` append to `result_stream`, `src_jni/serialize.hh:51–150`. -/
def write : {kind : ShapeKind} → (s : Shape kind) → s.Value → StdString
  | _, .string, v => ItemSerializer.processString v
  | _, .bool, v => ItemSerializer.processBool v
  | _, .int, v => ItemSerializer.processInt v
  | _, .unsignedInt, v => ItemSerializer.processUnsignedInt v
  | _, .pair first second, v => ItemSerializer.processPair (first.write v.1) (second.write v.2)
  | _, .container element, v => ItemSerializer.processContainer (List.map element.write v)
  | _, .map key value, v =>
    ItemSerializer.processContainer (List.map (fun entry ↦
      ItemSerializer.processPair (key.write entry.1) (value.write entry.2)) v)
  | _, .object serializeIdentifier fields, v =>
    ItemSerializer.processPointer serializeIdentifier.text (fields.write v)
  | _, .none, _ => []
  | _, .call type rest, v => type.write v.1 ++ rest.write v.2
  | _, .array _ element rest, v =>
    ItemSerializer.processSub (str "array") (v.1.toList.map element.write).flatten ++
      rest.write v.2

end Shape

/-! ## Reading -/

/-- A call of `process` on a variable: whether it throws, what the variable holds then, and the
stream. -/
abbrev Process (α : Type) : Type := α → ItemStream → Except ItemFault Unit × α × ItemStream

namespace Process

variable {α β γ : Type}

/-- A variable that is assigned to last. -/
def assign (p : Deserializing α) : Process α := fun old s ↦
  match p.scan s with
  | (.error e, s) => (.error e, old, s)
  | (.ok v, s) => (.ok (), v, s)

/-- An inner deserializer; what its variable holds is changed first. -/
def sub (typeIdentifier : StdString) (start : α → α) (inner : Process α) : Process α := fun old s ↦
  match (ItemDeserializer.processSub typeIdentifier do return (← get).rest).scan s with
  | (.error e, s) => (.error e, old, s)
  | (.ok text, s) =>
    let (result, new, _) := inner (start old) ⟨text, false⟩
    (result, new, s)

/-- One variable after the other. -/
def both (p : Process α) (q : Process β) : Process (α × β) := fun old s ↦
  match p old.1 s with
  | (.error e, u, s) => (.error e, (u, old.2), s)
  | (.ok _, u, s) =>
    let (result, v, s) := q old.2 s
    (result, (u, v), s)

/-- The loop that reads the elements of a container, all of them with one variable,
`src_jni/serialize.hh:282–290,347–355`. -/
def elementLoop (p : Process α) (insert : γ → α → γ) : Nat → α → Process γ
  | 0, _, elements, subdeser => (.ok (), elements, subdeser)
  | fuel + 1, element, elements, subdeser =>
    if subdeser.eof then (.ok (), elements, subdeser)
    else
      match p element subdeser with
      | (.ok _, element, subdeser) =>
        elementLoop p insert fuel element (insert elements element) subdeser
      | (.error .unexpectedEnd, element, subdeser) =>
        elementLoop p insert fuel element elements subdeser
      | (.error e, _, subdeser) => (.error e, elements, subdeser)

/-- That loop with a new variable. Every round extracts a character or meets the end. -/
def elements (p : Process α) (insert : γ → α → γ) (initial : α) : Process γ :=
  fun elements subdeser ↦ elementLoop p insert (subdeser.rest.length + 2) initial elements subdeser

/-- The loop of `process(size_t, ArrayT*)`, `src_jni/serialize.hh:311–319`. -/
def array (p : Process α) : {n : Nat} → Process (Tuple α n)
  | 0, elements, subdeser => (.ok (), elements, subdeser)
  | _ + 1, (element, elements), subdeser =>
    if subdeser.eof then (.ok (), (element, elements), subdeser)
    else
      match p element subdeser with
      | (.ok _, element, subdeser) | (.error .unexpectedEnd, element, subdeser) =>
        let (result, elements, subdeser) := array p elements subdeser
        (result, (element, elements), subdeser)
      | (.error e, element, subdeser) => (.error e, (element, elements), subdeser)

end Process

namespace Shape

/-- The calls of `process`, `src_jni/serialize.hh:192–357`. The elements of a container are read
into an empty one, those of a map into what is there; an object is a new one. -/
def read : {kind : ShapeKind} → (s : Shape kind) → Process s.Value
  | _, .string => Process.assign ItemDeserializer.processString
  | _, .bool => Process.assign ItemDeserializer.processBool
  | _, .int => Process.assign ItemDeserializer.processInt
  | _, .unsignedInt => Process.assign ItemDeserializer.processUnsignedInt
  | _, .pair first second => Process.sub (str "pair") id (first.read.both second.read)
  | _, .container element =>
    Process.sub (str "container") (fun _ ↦ ([] : List element.Value))
      (element.read.elements (fun (elements : List element.Value) v ↦ elements ++ [v])
        element.initial)
  | _, .map key value =>
    Process.sub (str "container") id
      ((Process.sub (str "pair") id (key.read.both value.read)).elements
        (fun elements entry ↦ insertNew key.less entry elements) (key.initial, value.initial))
  | _, .object serializeIdentifier fields =>
    Process.sub serializeIdentifier.text (fun _ ↦ fields.initial) fields.read
  | _, .none => fun old s ↦ (.ok (), old, s)
  | _, .call type rest => type.read.both rest.read
  | _, .array _ element rest => (Process.sub (str "array") id element.read.array).both rest.read

/-- `ItemSerializer::result` after the calls. -/
def serialized (s : Shape .calls) (v : s.Value) : StdString := ItemSerializer.result (s.write v)

/-- An `ItemDeserializer` made of a text, and the calls on its variables. -/
def deserialize (s : Shape .calls) (targets : s.Value) (input : StdString) :
    Except ItemFault Unit × s.Value × ItemStream :=
  match Serialize.decodeString input with
  | .none => (.error .undefined, targets, ⟨[], false⟩)
  | some text => s.read targets ⟨text, false⟩

end Shape

/-! ## What is read -/

/-- What one variable holds after each of the elements that are read into it. -/
def arrivals {α : Type} (f : α → α → α) : α → List α → List α
  | _, [] => []
  | old, v :: vs => f old v :: arrivals f (f old v) vs

/-- What a variable holds after a value has been read into it: strings as they are transmitted, and
the entries of a map behind those that there are. -/
def Shape.arrived : {kind : ShapeKind} → (s : Shape kind) → s.Value → s.Value → s.Value
  | _, .string, _, v => Serialize.transmitted v
  | _, .bool, _, v => v
  | _, .int, _, v => v
  | _, .unsignedInt, _, v => v
  | _, .pair first second, old, v => (first.arrived old.1 v.1, second.arrived old.2 v.2)
  | _, .container element, _, v => arrivals element.arrived element.initial v
  | _, .map key value, old, v =>
    (arrivals (fun old entry ↦ (key.arrived old.1 entry.1, value.arrived old.2 entry.2))
      (key.initial, value.initial) v).foldl (fun elements entry ↦ insertNew key.less entry elements)
      old
  | _, .object _ fields, _, v => fields.arrived fields.initial v
  | _, .none, _, _ => ()
  | _, .call type rest, old, v => (type.arrived old.1 v.1, rest.arrived old.2 v.2)
  | _, .array _ element rest, old, v =>
    (Tuple.zipWith element.arrived old.1 v.1, rest.arrived old.2 v.2)

theorem ItemSerializer.zero_notMem_flatten {α : Type} {vs : List α} {write : α → StdString}
    (hsolid : ∀ v ∈ vs, Solid (write v)) : 0 ∉ (vs.map write).flatten := by
  intro hmem
  obtain ⟨text, htext, hmem⟩ := List.mem_flatten.mp hmem
  obtain ⟨v, hv, rfl⟩ := List.mem_map.mp htext
  exact (hsolid v hv).2 hmem

namespace Process

variable {α β γ : Type}

/-- The call takes the text, whatever follows, and leaves a value in the variable. -/
def Restores (p : Process α) (text : StdString) (old new : α) : Prop :=
  ∀ rest, p old (.front (text ++ rest)) = (.ok (), new, .front rest)

/-- The call meets the end of a text in which there is no item. -/
def MeetsEnd (p : Process α) : Prop :=
  ∀ old (text : StdString), 59 ∉ text →
    p old (.front text) = (.error .unexpectedEnd, old, ⟨[], true⟩)

theorem restores_assign {p : Deserializing α} {text : StdString} {v : α} (h : ReadsBack p text v)
    (old : α) : (assign p).Restores text old v := by
  intro rest
  rw [assign, h rest]

theorem meetsEnd_assign {p : Deserializing α}
    (h : ∀ text : StdString, 59 ∉ text →
      p.scan (.front text) = (.error .unexpectedEnd, ⟨[], true⟩)) : (assign p).MeetsEnd := by
  intro old text htext
  rw [assign, h text htext]

theorem restores_both {p : Process α} {q : Process β} {text text' : StdString} {old : α × β}
    {u : α} {v : β} (hp : p.Restores text old.1 u) (hq : q.Restores text' old.2 v) :
    (p.both q).Restores (text ++ text') old (u, v) := by
  intro rest
  rw [both, List.append_assoc, hp]
  simp only [hq rest]

theorem both_of_error {p : Process α} {old : α × β} {s s' : ItemStream} {e : ItemFault} {u : α}
    (h : p old.1 s = (.error e, u, s')) (q : Process β) :
    p.both q old s = (.error e, (u, old.2), s') := by
  rw [both, h]

/-- An inner deserializer gets the text of its serializer, or the word for no text. -/
theorem restores_sub {typeIdentifier text : StdString} {start : α → α} {inner : Process α}
    {old new : α} {s : ItemStream} (htype : 59 ∉ typeIdentifier) (htext : 0 ∉ text)
    (hinner : inner (start old) (.front (Serialize.transmitted text)) = (.ok (), new, s)) :
    (sub typeIdentifier start inner).Restores (ItemSerializer.processSub typeIdentifier text) old
      new := by
  have hsub : ReadsBack (ItemDeserializer.processSub typeIdentifier do return (← get).rest)
      (ItemSerializer.processSub typeIdentifier text) (Serialize.transmitted text) :=
    ItemDeserializer.readsBack_sub htype htext rfl
  intro rest
  rw [ItemStream.front] at hinner
  rw [sub, hsub rest]
  simp only [hinner]

theorem restores_sub_of_solid {typeIdentifier text : StdString} {start : α → α}
    {inner : Process α} {old new : α} (htype : 59 ∉ typeIdentifier)
    (htext : ItemSerializer.Solid text) (hinner : inner.Restores text (start old) new) :
    (sub typeIdentifier start inner).Restores (ItemSerializer.processSub typeIdentifier text) old
      new := by
  have hread := hinner []
  rw [List.append_nil] at hread
  rw [← Serialize.transmitted_eq_self htext.1 htext.2] at hread
  exact restores_sub htype htext.2 hread

theorem meetsEnd_sub (typeIdentifier : StdString) (start : α → α) (inner : Process α) :
    (sub typeIdentifier start inner).MeetsEnd := by
  intro old text htext
  rw [sub, ItemDeserializer.processSub_scan_end typeIdentifier _ htext]

/-- An item of another type is refused, and the variable left as it is. -/
theorem sub_of_ne {typeIdentifier typeIdentifier' : StdString} (htype : 59 ∉ typeIdentifier')
    (hne : typeIdentifier' ≠ typeIdentifier) (start : α → α) (inner : Process α) (old : α)
    (text rest : StdString) :
    sub typeIdentifier start inner old
        (.front (ItemSerializer.item typeIdentifier' text ++ rest)) =
      (.error .unexpectedType, old, .front (text ++ 59 :: rest)) := by
  have hverify := ItemDeserializer.verifyType_scan_ne htype hne text rest
  rw [sub, ItemDeserializer.processSub, Scanner.scan_bind_error hverify]

section Elements

variable {p : Process α} {insert : γ → α → γ} {f : α → α → α} {write : α → StdString}

/-- The loop ends in the round after the one in which the end has been met. -/
private theorem elementLoop_end {fuel : Nat} (hend : p.MeetsEnd) (old : α) (acc : γ)
    {text : StdString} (htext : 59 ∉ text) :
    elementLoop p insert (fuel + 2) old acc (.front text) = (.ok (), acc, ⟨[], true⟩) := by
  rw [elementLoop, hend old text htext]
  rfl

/-- The elements are read one after the other. -/
private theorem elementLoop_eq {vs : List α}
    (hp : ∀ v ∈ vs, ∀ old, p.Restores (write v) old (f old v)) (hend : p.MeetsEnd) {fuel : Nat}
    (hfuel : vs.length + 2 ≤ fuel) (old : α) (acc : γ) :
    elementLoop p insert fuel old acc (.front (vs.flatMap write)) =
      (.ok (), (arrivals f old vs).foldl insert acc, ⟨[], true⟩) := by
  induction vs generalizing fuel old acc with
  | nil =>
    obtain ⟨fuel, rfl⟩ : ∃ n, fuel = n + 2 := ⟨fuel - 2, by simp at hfuel; omega⟩
    exact elementLoop_end hend old acc List.not_mem_nil
  | cons v vs ih =>
    obtain ⟨hv, hvs⟩ := List.forall_mem_cons.mp hp
    rw [List.length_cons] at hfuel
    obtain ⟨fuel, rfl⟩ : ∃ n, fuel = n + 1 := ⟨fuel - 1, by omega⟩
    rw [List.flatMap_cons, elementLoop, hv old, arrivals, List.foldl_cons]
    exact ih hvs (by omega) _ _

/-- So are those of an empty container: the word for no text has no end. -/
theorem elements_eq (insert : γ → α → γ) {vs : List α}
    (hp : ∀ v ∈ vs, ∀ old, p.Restores (write v) old (f old v)) (hend : p.MeetsEnd)
    (hsolid : ∀ v ∈ vs, ItemSerializer.Solid (write v)) (old : α) (acc : γ) :
    p.elements insert old acc (.front (Serialize.transmitted (vs.map write).flatten)) =
      (.ok (), (arrivals f old vs).foldl insert acc, ⟨[], true⟩) := by
  cases vs with
  | nil =>
    have hword : 59 ∉ Serialize.transmitted [] := by decide
    exact elementLoop_end hend old acc hword
  | cons v vs =>
    have hne : ((v :: vs).map write).flatten ≠ [] := by
      rw [List.map_cons, List.flatten_cons]
      exact List.append_ne_nil_of_left_ne_nil (hsolid v List.mem_cons_self).1 _
    rw [Serialize.transmitted_eq_self hne (ItemSerializer.zero_notMem_flatten hsolid), elements,
      ← List.flatMap_def]
    refine elementLoop_eq hp hend (Nat.add_le_add_right ?_ 2) old acc
    exact ItemDeserializer.length_le_flatMap fun w hw ↦ (hsolid w hw).1

/-- The elements of an array are read into its variables. -/
theorem restores_array (hp : ∀ old v, p.Restores (write v) old (f old v)) {n : Nat}
    (olds vs : Tuple α n) :
    (array p).Restores (vs.toList.map write).flatten olds (Tuple.zipWith f olds vs) := by
  intro rest
  induction n with
  | zero => rfl
  | succ n ih =>
    obtain ⟨old, olds⟩ := olds
    obtain ⟨v, vs⟩ := vs
    have hread := hp old v ((vs.toList.map write).flatten ++ rest)
    rw [Tuple.toList, List.map_cons, List.flatten_cons, List.append_assoc, array, hread]
    simp only [ItemStream.front, Bool.false_eq_true, if_false]
    rw [← ItemStream.front, ih]
    rfl

end Elements

end Process

namespace Shape

/-- An item is a text that is not taken for the empty string or cut. -/
theorem solid_write {p : Bool} (s : Shape (.item p)) (v : s.Value) :
    ItemSerializer.Solid (s.write v) := by
  cases s with
  | string => exact ItemSerializer.solid_string v
  | bool => exact ItemSerializer.solid_bool v
  | int => exact ItemSerializer.solid_int v
  | unsignedInt => exact ItemSerializer.solid_unsignedInt v
  | pair | container | map => exact ItemSerializer.solid_sub (by decide) _
  | object serializeIdentifier => exact ItemSerializer.solid_sub serializeIdentifier.plain.2 _

theorem zero_notMem_write {kind : ShapeKind} (s : Shape kind) (v : s.Value) : 0 ∉ s.write v := by
  induction s with
  | none => exact List.not_mem_nil
  | call type rest _ ih =>
    exact fun h ↦ (List.mem_append.mp h).elim (type.solid_write v.1).2 (ih v.2)
  | array size element rest _ ih =>
    have hsolid : ItemSerializer.Solid (ItemSerializer.processSub (str "array") _) :=
      ItemSerializer.solid_sub (by decide) (v.1.toList.map element.write).flatten
    exact fun h ↦ (List.mem_append.mp h).elim hsolid.2 (ih v.2)
  | _ => exact (solid_write _ v).2

theorem meetsEnd_read {p : Bool} (s : Shape (.item p)) : s.read.MeetsEnd := by
  cases s with
  | string | bool | int | unsignedInt =>
    exact Process.meetsEnd_assign fun text htext ↦
      Scanner.scan_bind_error (ItemDeserializer.verifyType_scan_end _ htext)
  | pair | container | map | object => exact Process.meetsEnd_sub _ _ _

/-- Only a sequence of no calls writes nothing; it reads nothing. -/
theorem read_of_write_eq_nil {s : Shape .calls} {v : s.Value} (h : s.write v = [])
    (old : s.Value) (stream : ItemStream) :
    s.read old stream = (.ok (), s.arrived old v, stream) := by
  cases s with
  | none => rfl
  | call type rest => exact absurd (List.append_eq_nil_iff.mp h).1 (type.solid_write v.1).1
  | array size element rest =>
    have hsolid : ItemSerializer.Solid (ItemSerializer.processSub (str "array") _) :=
      ItemSerializer.solid_sub (by decide) (v.1.toList.map element.write).flatten
    exact absurd (List.append_eq_nil_iff.mp h).1 hsolid.1

theorem foldl_snoc {α : Type} (l : List α) : l.foldl (fun xs x ↦ xs ++ [x]) [] = l := by
  simp [← List.flatMap_def]

/-- Each call takes its own item, whatever the variable holds and whatever follows, and does not
throw. -/
theorem restores {kind : ShapeKind} (s : Shape kind) (old v : s.Value) :
    s.read.Restores (s.write v) old (s.arrived old v) := by
  induction s with
  | string => exact Process.restores_assign (ItemDeserializer.readsBack_string v) old
  | bool => exact Process.restores_assign (ItemDeserializer.readsBack_bool v) old
  | int => exact Process.restores_assign (ItemDeserializer.readsBack_int v) old
  | unsignedInt => exact Process.restores_assign (ItemDeserializer.readsBack_unsignedInt v) old
  | pair first second ihFirst ihSecond =>
    have hsolid := (first.solid_write v.1).append (second.solid_write v.2)
    exact Process.restores_sub_of_solid (by decide) hsolid
      (Process.restores_both (ihFirst old.1 v.1) (ihSecond old.2 v.2))
  | container element ih =>
    let vs : List element.Value := v
    have hsolid : ∀ w ∈ vs, ItemSerializer.Solid (element.write w) :=
      fun w _ ↦ element.solid_write w
    have hread := Process.elements_eq (fun elements w ↦ elements ++ [w])
      (fun w _ old ↦ ih old w) element.meetsEnd_read hsolid element.initial []
    rw [foldl_snoc] at hread
    exact Process.restores_sub (by decide) (ItemSerializer.zero_notMem_flatten hsolid) hread
  | map key value ihKey ihValue =>
    let vs : List (key.Value × value.Value) := v
    let write := fun entry : key.Value × value.Value ↦
      ItemSerializer.processPair (key.write entry.1) (value.write entry.2)
    have hsolid : ∀ w ∈ vs, ItemSerializer.Solid (write w) :=
      fun w _ ↦ ItemSerializer.solid_sub (by decide) _
    have hentry : ∀ w ∈ vs, ∀ old, (Process.sub (str "pair") id (key.read.both value.read)).Restores
        (write w) old (key.arrived old.1 w.1, value.arrived old.2 w.2) := by
      intro w _ old
      have hboth := (key.solid_write w.1).append (value.solid_write w.2)
      exact Process.restores_sub_of_solid (by decide) hboth
        (Process.restores_both (ihKey old.1 w.1) (ihValue old.2 w.2))
    have hread := Process.elements_eq (fun elements entry ↦ insertNew key.less entry elements)
      hentry (Process.meetsEnd_sub _ _ _) hsolid (key.initial, value.initial) old
    exact Process.restores_sub (by decide) (ItemSerializer.zero_notMem_flatten hsolid) hread
  | object serializeIdentifier fields ih =>
    have hnul := fields.zero_notMem_write v
    by_cases htext : fields.write v = []
    · have hread := fields.read_of_write_eq_nil htext fields.initial
        (.front (Serialize.transmitted (fields.write v)))
      exact Process.restores_sub serializeIdentifier.plain.1 hnul hread
    · exact Process.restores_sub_of_solid serializeIdentifier.plain.1 ⟨htext, hnul⟩
        (ih fields.initial v)
  | none => exact fun rest ↦ rfl
  | call type rest ihType ihRest =>
    exact Process.restores_both (ihType old.1 v.1) (ihRest old.2 v.2)
  | array size element rest ihElement ihRest =>
    refine Process.restores_both ?_ (ihRest old.2 v.2)
    have hsolid : ∀ w ∈ v.1.toList, ItemSerializer.Solid (element.write w) :=
      fun w _ ↦ element.solid_write w
    have hread := Process.restores_array ihElement old.1 v.1
    cases size with
    | zero => exact Process.restores_sub (by decide) List.not_mem_nil rfl
    | succ n =>
      obtain ⟨⟨w, ws⟩, fields⟩ := v
      have hne : ((Tuple.toList (n := n + 1) (w, ws)).map element.write).flatten ≠ [] :=
        List.append_ne_nil_of_left_ne_nil (element.solid_write w).1 _
      exact Process.restores_sub_of_solid (by decide)
        ⟨hne, ItemSerializer.zero_notMem_flatten hsolid⟩ hread

end Shape

end Vuknob
