import Vuknob.Library.Scanning
import Vuknob.Remote.Message

/-!
# Serialised items

`Serialize::ItemSerializer` and `Serialize::ItemDeserializer`, `src_jni/serialize.hh:44–357`. An
item is the name of its type and a text, each ended by a semicolon. The items within a pair, an
object or a container are the text of the outer item, encoded twice. A deserializer is a stream
over the decoded text; each inner one has a stream of its own.
-/

namespace Vuknob

open Library

/-! ## Writing

`ItemSerializer`, `src_jni/serialize.hh:44–150`: what each call of `process` appends to
`result_stream`. -/

namespace ItemSerializer

/-- An item with its type and its text. -/
def item (typeIdentifier text : StdString) : StdString :=
  typeIdentifier ++ str ";" ++ text ++ str ";"

/-- `process(const std::string&)`. -/
def processString (v : StdString) : StdString := item (str "string") (Serialize.encodeString v)

/-- `process(bool)`. -/
def processBool (v : Bool) : StdString := item (str "bool") (if v then str "true" else str "false")

/-- `process(int)`. -/
def processInt (v : Int32) : StdString := item (str "int") (decimalInt v.toInt)

/-- `process(unsigned int)`. -/
def processUnsignedInt (v : UInt32) : StdString := item (str "uint") (decimal v.toNat)

/-- `result`, `src_jni/serialize.hh:91–93`. -/
def result (resultStream : StdString) : StdString := Serialize.encodeString resultStream

/-- An item that holds what another serializer has written. -/
def processSub (typeIdentifier subser : StdString) : StdString :=
  item typeIdentifier (Serialize.encodeString (result subser))

/-- `process(const std::pair&)`, `src_jni/serialize.hh:96–104`. -/
def processPair (first second : StdString) : StdString := processSub (str "pair") (first ++ second)

/-- `process` of a pointer, `src_jni/serialize.hh:128–138`. -/
def processPointer (serializeIdentifier serderized : StdString) : StdString :=
  processSub serializeIdentifier serderized

/-- `process` of a container, `src_jni/serialize.hh:140–150`. -/
def processContainer (elements : List StdString) : StdString :=
  processSub (str "container") elements.flatten

/-- A text that is not taken for the empty string or cut. -/
def Solid (text : StdString) : Prop := text ≠ [] ∧ 0 ∉ text

theorem Solid.append {text text' : StdString} (h : Solid text) (h' : Solid text') :
    Solid (text ++ text') :=
  ⟨by simp [h.1], by simp [h.2, h'.2]⟩

private theorem solid_item {typeIdentifier text : StdString} (htype : 0 ∉ typeIdentifier)
    (htext : 0 ∉ text) : Solid (item typeIdentifier text) := by
  have hsep : str ";" ≠ [] ∧ 0 ∉ str ";" := by decide
  exact ⟨by simp [item, hsep.1], by simp [item, htype, htext, hsep.2]⟩

theorem solid_string (v : StdString) : Solid (processString v) :=
  solid_item (by decide) fun h ↦ (Serialize.mem_encodeString h).2.2 rfl

theorem solid_bool (v : Bool) : Solid (processBool v) :=
  solid_item (by decide) (by cases v <;> decide)

theorem solid_int (v : Int32) : Solid (processInt v) :=
  solid_item (by decide) fun h ↦ (mem_decimalInt h).1 rfl

theorem solid_unsignedInt (v : UInt32) : Solid (processUnsignedInt v) :=
  solid_item (by decide) fun h ↦ (mem_decimal h).1 rfl

theorem solid_sub {typeIdentifier : StdString} (h : 0 ∉ typeIdentifier) (subser : StdString) :
    Solid (processSub typeIdentifier subser) :=
  solid_item h fun hmem ↦ (Serialize.mem_encodeString hmem).2.2 rfl

end ItemSerializer

/-! ## Reading -/

/-- The exceptions of `ItemDeserializer`, those of the conversions, and reading past the array of
`decode_string`. -/
inductive ItemFault
  | unexpectedType
  | unexpectedEnd
  | conversion (e : ConversionError)
  | undefined
  deriving DecidableEq

/-- The stream of an `ItemDeserializer`: what has not been extracted, and `eof`. -/
structure ItemStream where
  rest : StdString
  eof : Bool
  deriving DecidableEq

/-- What an `ItemDeserializer` does. -/
abbrev Deserializing (α : Type) : Type := Scanner ItemStream ItemFault α

namespace ItemDeserializer

/-- `get_string`, `src_jni/serialize.hh:182–187`. -/
def getString : Deserializing StdString := do
  let line := Message.getline 59 (← get).rest
  set (ItemStream.mk line.rest line.eof)
  if line.eof then throw .unexpectedEnd else return line.text

/-- `verify_type`, `src_jni/serialize.hh:169–180`. -/
def verifyType (typeIdentifier : StdString) : Deserializing Unit := do
  let type ← getString
  if type = typeIdentifier then return () else throw .unexpectedType

/-- `decode_string` on the way. -/
def decode (encoded : StdString) : Deserializing StdString :=
  match Serialize.decodeString encoded with
  | none => throw .undefined
  | some text => return text

/-- `process(std::string&)`. -/
def processString : Deserializing StdString := do
  verifyType (str "string")
  decode (← getString)

/-- `process(bool&)`. -/
def processBool : Deserializing Bool := do
  verifyType (str "bool")
  return (← getString) = str "true"

/-- `process(int&)`. -/
def processInt : Deserializing Int32 := do
  verifyType (str "int")
  match stoi (← getString) with
  | .error e => throw (.conversion e)
  | .ok v => return v

/-- `process(unsigned int&)`. -/
def processUnsignedInt : Deserializing UInt32 := do
  verifyType (str "uint")
  match stoul (← getString) with
  | .error e => throw (.conversion e)
  | .ok v => return UInt32.ofNat v.toNat

/-- An inner deserializer, made of the text of an item; its constructor decodes once more. -/
def processSub {α : Type} (typeIdentifier : StdString) (inner : Deserializing α) :
    Deserializing α := do
  verifyType typeIdentifier
  let input ← decode (← getString)
  let text ← decode input
  match (inner.scan ⟨text, false⟩).1 with
  | .error e => throw e
  | .ok a => return a

/-- `process(std::pair&)`, `src_jni/serialize.hh:262–272`. -/
def processPair {α β : Type} (first : Deserializing α) (second : Deserializing β) :
    Deserializing (α × β) :=
  processSub (str "pair") do
    let u ← first
    return (u, ← second)

/-- `process` of a pointer, `src_jni/serialize.hh:322–333`, with the `serderize` of the object. -/
def processPointer {α : Type} (serializeIdentifier : StdString) (serderize : Deserializing α) :
    Deserializing α := processSub serializeIdentifier serderize

/-- The loop of `process(std::map&)`, `src_jni/serialize.hh:283–290`: the end of the data, also of
that of an element, is ignored. -/
def mapLoop {V : Type} (element : Deserializing (UInt32 × V)) :
    Nat → Std.ExtTreeMap UInt32 V → Deserializing (Std.ExtTreeMap UInt32 V)
  | 0, elements => return elements
  | fuel + 1, elements => do
    let subdeser ← get
    if subdeser.eof then return elements
    else
      let (processed, subdeser) := element.scan subdeser
      set subdeser
      match processed with
      | .ok (key, value) => mapLoop element fuel (elements.insertIfNew key value)
      | .error .unexpectedEnd => mapLoop element fuel elements
      | .error e => throw e

/-- `process(std::map&)` on an empty map, `src_jni/serialize.hh:274–291`. Every round extracts a
character or meets the end. -/
def processMap {V : Type} (element : Deserializing (UInt32 × V)) :
    Deserializing (Std.ExtTreeMap UInt32 V) :=
  processSub (str "container") do
    let subdeser ← get
    mapLoop element (subdeser.rest.length + 2) ∅

end ItemDeserializer

/-! ## Reading back -/

/-- A stream on which the text is still to be read. -/
def ItemStream.front (rest : StdString) : ItemStream := ⟨rest, false⟩

/-- What a deserializer makes of a text, whatever follows. -/
abbrev ReadsBack {α : Type} (p : Deserializing α) (text : StdString) (a : α) : Prop :=
  Takes ItemStream.front p text a

namespace ItemDeserializer

variable {α β : Type}

private theorem getString_scan {text : StdString} (h : 59 ∉ text) (rest : StdString) :
    getString.scan (.front (text ++ 59 :: rest)) = (.ok text, .front rest) := by
  have hline := Message.getline_append h rest
  rw [getString, Scanner.scan_bind (Scanner.scan_get _)]
  simp only [ItemStream.front, hline]
  rfl

/-- The text of an item is read back by what reads its value. -/
theorem readsBack_item {p : StdString → Deserializing α} {typeIdentifier text : StdString}
    {a : α} (htype : 59 ∉ typeIdentifier) (htext : 59 ∉ text)
    (hp : ∀ s, (p text).scan s = (.ok a, s)) :
    ReadsBack (do verifyType typeIdentifier; p (← getString))
      (ItemSerializer.item typeIdentifier text) a := by
  intro rest
  have hverify : (verifyType typeIdentifier).scan
      (.front (ItemSerializer.item typeIdentifier text ++ rest)) =
        (.ok (), .front (text ++ 59 :: rest)) := by
    have hitem : ItemSerializer.item typeIdentifier text ++ rest =
        typeIdentifier ++ 59 :: (text ++ 59 :: rest) := by
      simp [ItemSerializer.item, show str ";" = [59] by decide]
    rw [hitem, verifyType, Scanner.scan_bind (getString_scan htype _), if_pos rfl]
    rfl
  rw [Scanner.scan_bind hverify, Scanner.scan_bind (getString_scan htext rest)]
  exact hp _

private theorem sep_notMem_decimalInt (v : Int) : 59 ∉ decimalInt v := fun h ↦
  (mem_decimalInt h).2.1 rfl

private theorem decode_scan {encoded text : StdString}
    (h : Serialize.decodeString encoded = some text) (s : ItemStream) :
    (decode encoded).scan s = (.ok text, s) := by
  rw [decode, h]
  rfl

/-- A string comes back as it is transmitted. -/
theorem readsBack_string (v : StdString) :
    ReadsBack processString (ItemSerializer.processString v) (Serialize.transmitted v) :=
  readsBack_item (by decide) (fun h ↦ (Serialize.mem_encodeString h).2.1 rfl)
    (decode_scan (Serialize.decodeString_encodeString v))

theorem readsBack_bool (v : Bool) : ReadsBack processBool (ItemSerializer.processBool v) v := by
  refine readsBack_item (by decide) ?_ fun s ↦ ?_
  · cases v <;> decide
  · cases v <;> rfl

theorem readsBack_int (v : Int32) : ReadsBack processInt (ItemSerializer.processInt v) v := by
  refine readsBack_item (by decide) (sep_notMem_decimalInt _) fun s ↦ ?_
  simp only [stoi_decimalInt]
  rfl

theorem readsBack_unsignedInt (v : UInt32) :
    ReadsBack processUnsignedInt (ItemSerializer.processUnsignedInt v) v := by
  have hlt : v.toNat < 2 ^ 64 := Nat.lt_trans v.toNat_lt (by decide)
  refine readsBack_item (by decide) (sep_notMem_decimalInt v.toNat) fun s ↦ ?_
  simp only [stoul_decimal, UInt64.toNat_ofNat_of_lt' hlt, UInt32.ofNat_toNat]
  rfl

/-- What another serializer has written is read back by its own deserializer. -/
theorem readsBack_sub {typeIdentifier text : StdString} {inner : Deserializing α} {a : α}
    (htype : 59 ∉ typeIdentifier) (htext : 0 ∉ text)
    (h : (inner.scan (.front (Serialize.transmitted text))).1 = .ok a) :
    ReadsBack (processSub typeIdentifier inner) (ItemSerializer.processSub typeIdentifier text)
      a := by
  have hresult : ItemSerializer.result text ≠ [] ∧ 0 ∉ ItemSerializer.result text := by
    refine ⟨fun hnil ↦ ?_, fun hmem ↦ (Serialize.mem_encodeString hmem).2.2 rfl⟩
    exact htext (List.mem_of_mem_head? (Serialize.encodeString_eq_nil_iff.mp hnil))
  have hinput := Serialize.decodeString_encodeString (ItemSerializer.result text)
  rw [Serialize.transmitted_eq_self hresult.1 hresult.2] at hinput
  refine readsBack_item htype (fun hmem ↦ (Serialize.mem_encodeString hmem).2.1 rfl) fun s ↦ ?_
  rw [Scanner.scan_bind (decode_scan hinput s), ItemSerializer.result,
    Scanner.scan_bind (decode_scan (Serialize.decodeString_encodeString text) s)]
  rw [ItemStream.front] at h
  simp only [h]
  rfl

/-- A solid text is read back by an inner deserializer. -/
theorem readsBack_sub_of_solid {typeIdentifier text : StdString} {inner : Deserializing α} {a : α}
    (htype : 59 ∉ typeIdentifier) (htext : ItemSerializer.Solid text) (h : ReadsBack inner text a) :
    ReadsBack (processSub typeIdentifier inner) (ItemSerializer.processSub typeIdentifier text)
      a := by
  apply readsBack_sub htype htext.2
  have hread := h []
  rw [List.append_nil] at hread
  rw [Serialize.transmitted_eq_self htext.1 htext.2, hread]

/-- On a text without an end there is no item. -/
theorem verifyType_scan_end (typeIdentifier : StdString) {text : StdString} (h : 59 ∉ text) :
    (verifyType typeIdentifier).scan (.front text) = (.error .unexpectedEnd, ⟨[], true⟩) := by
  have hget : getString.scan (.front text) = (.error .unexpectedEnd, ⟨[], true⟩) := by
    rw [getString, Scanner.scan_bind (Scanner.scan_get _)]
    simp only [ItemStream.front, Message.getline_of_notMem h]
    rfl
  rw [verifyType, Scanner.scan_bind_error hget]

/-- An item of another type is not taken. -/
theorem verifyType_scan_ne {typeIdentifier typeIdentifier' : StdString}
    (htype : 59 ∉ typeIdentifier') (hne : typeIdentifier' ≠ typeIdentifier)
    (text rest : StdString) :
    (verifyType typeIdentifier).scan
      (.front (ItemSerializer.item typeIdentifier' text ++ rest)) =
        (.error .unexpectedType, .front (text ++ 59 :: rest)) := by
  have hitem : ItemSerializer.item typeIdentifier' text ++ rest =
      typeIdentifier' ++ 59 :: (text ++ 59 :: rest) := by
    simp [ItemSerializer.item, show str ";" = [59] by decide]
  rw [hitem, verifyType, Scanner.scan_bind (getString_scan htype _), if_neg hne]
  rfl

theorem processSub_scan_end (typeIdentifier : StdString) (inner : Deserializing α)
    {text : StdString} (h : 59 ∉ text) :
    (processSub typeIdentifier inner).scan (.front text) = (.error .unexpectedEnd, ⟨[], true⟩) :=
  Scanner.scan_bind_error (verifyType_scan_end typeIdentifier h)

/-! ### Maps -/

section Maps

variable {V : Type} {element : Deserializing (UInt32 × V)}

/-- One element is read and put into the map. -/
private theorem mapLoop_of_ok {fuel : Nat} {elements : Std.ExtTreeMap UInt32 V}
    {s s' : ItemStream} {key : UInt32} {value : V} (hs : s.eof = false)
    (h : element.scan s = (.ok (key, value), s')) :
    (mapLoop element (fuel + 1) elements).scan s =
      (mapLoop element fuel (elements.insertIfNew key value)).scan s' := by
  rw [mapLoop, Scanner.scan_bind (Scanner.scan_get s)]
  simp only [hs, Bool.false_eq_true, if_false, h]
  rw [Scanner.scan_bind (Scanner.scan_set s s')]

/-- At the end of the data the map is complete. -/
private theorem mapLoop_of_end {fuel : Nat} {elements : Std.ExtTreeMap UInt32 V}
    {s s' : ItemStream} (hs : s.eof = false) (hs' : s'.eof = true)
    (h : element.scan s = (.error .unexpectedEnd, s')) :
    ((mapLoop element (fuel + 2) elements).scan s).1 = .ok elements := by
  rw [mapLoop, Scanner.scan_bind (Scanner.scan_get s)]
  simp only [hs, Bool.false_eq_true, if_false, h]
  rw [Scanner.scan_bind (Scanner.scan_set s s'), mapLoop, Scanner.scan_bind (Scanner.scan_get s')]
  simp only [hs', if_true]
  rfl

/-- The elements are read one after the other. -/
private theorem mapLoop_scan {fuel : Nat} {items : List (StdString × UInt32 × V)}
    (hitems : ∀ item ∈ items, ReadsBack element item.1 item.2)
    (hend : element.scan (.front []) = (.error .unexpectedEnd, ⟨[], true⟩))
    (hfuel : items.length + 2 ≤ fuel) (elements : Std.ExtTreeMap UInt32 V) :
    ((mapLoop element fuel elements).scan (.front (items.flatMap Prod.fst))).1 =
      .ok (items.foldl (fun elements item ↦ elements.insertIfNew item.2.1 item.2.2) elements) := by
  induction items generalizing fuel elements with
  | nil =>
    obtain ⟨fuel, rfl⟩ : ∃ n, fuel = n + 2 := ⟨fuel - 2, by simp at hfuel; omega⟩
    exact mapLoop_of_end rfl rfl hend
  | cons item items ih =>
    rw [List.forall_mem_cons] at hitems
    rw [List.length_cons] at hfuel
    obtain ⟨fuel, rfl⟩ : ∃ n, fuel = n + 1 := ⟨fuel - 1, by omega⟩
    rw [List.flatMap_cons, mapLoop_of_ok rfl (hitems.1 _), List.foldl_cons]
    exact ih hitems.2 (by omega) _

private theorem nodup_keys {W : Type} (elements : Std.ExtTreeMap UInt32 W) :
    (elements.toList.map Prod.fst).Nodup := by
  refine List.pairwise_map.mpr (Std.ExtTreeMap.distinct_keys_toList.imp fun {a b} hne heq ↦ ?_)
  exact hne (heq ▸ Std.ReflCmp.compare_self)

/-- New elements are inserted as they come. -/
private theorem foldl_insertIfNew {items : List (UInt32 × V)} (hnodup : (items.map Prod.fst).Nodup)
    {elements : Std.ExtTreeMap UInt32 V} (hnew : ∀ item ∈ items, item.1 ∉ elements) :
    items.foldl (fun elements item ↦ elements.insertIfNew item.1 item.2) elements =
      elements.insertMany items := by
  induction items generalizing elements with
  | nil => rfl
  | cons item items ih =>
    obtain ⟨key, value⟩ := item
    rw [List.map_cons, List.nodup_cons] at hnodup
    rw [List.forall_mem_cons] at hnew
    have hinsert : elements.insertIfNew key value = elements.insert key value := by
      apply Std.ExtTreeMap.ext_getElem?
      intro k
      rw [Std.ExtTreeMap.getElem?_insertIfNew, Std.ExtTreeMap.getElem?_insert]
      simp only [hnew.1, not_false_eq_true, and_true]
    rw [List.foldl_cons, Std.ExtTreeMap.insertMany_cons, hinsert]
    refine ih hnodup.2 fun item hitem hmem ↦ ?_
    rcases Std.ExtTreeMap.mem_insert.mp hmem with heq | hmem
    · rw [Std.LawfulEqCmp.eq_of_compare heq] at hnodup
      exact hnodup.1 (List.mem_map.mpr ⟨item, hitem, rfl⟩)
    · exact hnew.2 item hitem hmem

/-- The entries of a map make the map again, with what becomes of their values. -/
private theorem insertMany_toList {W : Type} (elements : Std.ExtTreeMap UInt32 W) (f : W → V) :
    (∅ : Std.ExtTreeMap UInt32 V).insertMany (elements.toList.map fun e ↦ (e.1, f e.2)) =
      elements.map fun _ ↦ f := by
  have hnodup : ((elements.toList.map fun e ↦ (e.1, f e.2)).map Prod.fst).Nodup := by
    rw [List.map_map]
    exact nodup_keys elements
  apply Std.ExtTreeMap.ext_getElem?
  intro k
  apply Option.ext
  intro v
  rw [Library.getElem?_insertMany_eq_some_iff, Library.surviving_of_nodup hnodup,
    Std.ExtTreeMap.getElem?_map]
  simp [Std.ExtTreeMap.mem_toList_iff_getElem?_eq_some, Option.map_eq_some_iff]

theorem length_le_flatMap {ι : Type} {items : List ι} {write : ι → StdString}
    (h : ∀ item ∈ items, write item ≠ []) : items.length ≤ (items.flatMap write).length := by
  induction items with
  | nil => exact Nat.zero_le _
  | cons item items ih =>
    rw [List.forall_mem_cons] at h
    have hpos := List.length_pos_iff.mpr h.1
    have hrest := ih h.2
    rw [List.flatMap_cons, List.length_append, List.length_cons]
    omega

/-- A map comes back with what becomes of its values, the empty one as well: what stands for no
text has no end. -/
theorem readsBack_map {W : Type} {elements : Std.ExtTreeMap UInt32 W}
    {text : UInt32 × W → StdString} {f : W → V}
    (helement : ∀ e ∈ elements.toList, ReadsBack element (text e) (e.1, f e.2) ∧
      ItemSerializer.Solid (text e))
    (hend : ∀ s : StdString, 59 ∉ s →
      element.scan (.front s) = (.error .unexpectedEnd, ⟨[], true⟩)) :
    ReadsBack (processMap element) (ItemSerializer.processContainer (elements.toList.map text))
      (elements.map fun _ ↦ f) := by
  let items : List (StdString × UInt32 × V) := elements.toList.map fun e ↦ (text e, e.1, f e.2)
  have htext : (elements.toList.map text).flatten = items.flatMap Prod.fst := by
    rw [List.flatMap_def, List.map_map]
    rfl
  have hitems : ∀ item ∈ items, ReadsBack element item.1 item.2 ∧ ItemSerializer.Solid item.1 := by
    intro item hitem
    obtain ⟨e, he, rfl⟩ := List.mem_map.mp hitem
    exact helement e he
  have hfold : items.foldl (fun elements item ↦ elements.insertIfNew item.2.1 item.2.2) ∅ =
      elements.map fun _ ↦ f := by
    have hnodup : ((elements.toList.map fun e ↦ (e.1, f e.2)).map Prod.fst).Nodup := by
      rw [List.map_map]
      exact nodup_keys elements
    have hinsert := @foldl_insertIfNew V _ hnodup ∅ fun _ _ ↦ Std.ExtTreeMap.not_mem_empty
    rw [insertMany_toList, List.foldl_map] at hinsert
    rw [← hinsert, List.foldl_map]
  rw [ItemSerializer.processContainer, htext]
  have hzero : 0 ∉ items.flatMap Prod.fst := by
    intro hmem
    obtain ⟨item, hitem, hzero⟩ := List.mem_flatMap.mp hmem
    exact (hitems item hitem).2.2 hzero
  apply readsBack_sub (by decide) hzero
  · rw [Scanner.scan_bind (Scanner.scan_get _), Serialize.transmitted]
    split
    · next hnil =>
      -- the word for the empty string is met as an item without an end
      have hnone : items = [] := by
        cases hitems' : items with
        | nil => rfl
        | cons item rest =>
          rw [hitems', List.flatMap_cons, List.append_eq_nil_iff] at hnil
          exact absurd hnil.1 (hitems item (hitems' ▸ List.mem_cons_self)).2.1
      rw [mapLoop_of_end rfl rfl (hend _ (by decide)), ← hfold, hnone]
      rfl
    · rw [cString_of_notMem hzero, ← hfold]
      refine mapLoop_scan (fun item hitem ↦ (hitems item hitem).1) (hend [] (by simp)) ?_ ∅
      exact Nat.add_le_add_right (length_le_flatMap fun item hitem ↦ (hitems item hitem).2.1) 2

end Maps

end ItemDeserializer

end Vuknob
