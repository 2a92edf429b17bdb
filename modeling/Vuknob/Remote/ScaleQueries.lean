import Vuknob.Remote.ShapeRoundTrip

/-!
# Questions about the scales

What a client gets when it asks for the names of the scales of the server, and for the keys of one
of them by its name or by its index: `src_jni/scales.cc:216–275,326–394`. A question and its reply
carry their values as texts of messages.
-/

namespace Vuknob

/-- `Scales::Scale`, `src_jni/scales.hh:129–140`. -/
structure Scale where
  name : StdString
  keys : Tuple Int32 7

namespace Scale

/-- `serialize_identifier`. -/
def serializeIdentifier : SerializeIdentifier := ⟨str "Scales::Scale", by decide⟩

/-- A pointer to a scale, with what `serderize` processes. -/
def shape : Shape (.item true) :=
  .object serializeIdentifier (.call (@Shape.string false) (.array 7 (@Shape.int false) .none))

/-- The fields of a scale. -/
def fields (scale : Scale) : shape.Value := (scale.name, scale.keys, ())

end Scale

/-- The parts of `Scales` that hold what is asked for. -/
abbrev ScaleTable := List Scale

namespace ScaleTable

/-- What `process` is called on by the server and by a client: a vector of pointers to scales. -/
def scalesShape : Shape .calls := .call (.container Scale.shape) .none

/-- An array is a container for the server, and a vector of `int` one for a client. -/
def keysShape : Shape .calls := .call (.container (@Shape.int false)) .none

/-- The variable that holds the scales. -/
def scalesVariable (scales : ScaleTable) : scalesShape.Value := (List.map Scale.fields scales, ())

/-- The names in it. -/
def namesOf : scalesShape.Value → List StdString
  | (values, _) => List.map (fun value : Scale.shape.Value ↦ value.1) values

/-- A variable that holds keys. -/
def keysVariable (keys : List Int32) : keysShape.Value := (keys, ())

/-- The keys in it. -/
def keysOf : keysShape.Value → List Int32
  | (keys, _) => keys

/-- `process(7, keys)`. -/
def keyArrayShape : Shape .calls := .array 7 (@Shape.int false) .none

/-- The variable that is an array. -/
def keyArrayVariable (keys : Tuple Int32 7) : keyArrayShape.Value := (keys, ())

/-- The keys in it. -/
def keyArrayOf : keyArrayShape.Value → Tuple Int32 7
  | (keys, _) => keys

/-- The keys that a handler starts with, and those that a client starts with. -/
def defaultKeys : Tuple Int32 7 := (0, 2, 4, 5, 7, 9, 11, ())

/-! ## The server -/

/-- `handle_get_scale_names`, `src_jni/scales.cc:216–230`: the value of `scales` in the reply. -/
def handleGetScaleNames (scales : ScaleTable) : StdString :=
  scalesShape.serialized scales.scalesVariable

/-- The loop of `handle_get_scale_keys`, `src_jni/scales.cc:241–246`. -/
def keysNamed (scales : ScaleTable) (scaleName : StdString) : Tuple Int32 7 :=
  scales.foldl (fun keys scale ↦ if scale.name = scaleName then scale.keys else keys) defaultKeys

/-- The value of `keys` in a reply. -/
def keysReply (keys : Tuple Int32 7) : StdString := keysShape.serialized (keysVariable keys.toList)

/-- `handle_get_scale_keys`, `src_jni/scales.cc:232–254`. -/
def handleGetScaleKeys (scales : ScaleTable) (name : StdString) : StdString :=
  keysReply (scales.keysNamed name)

/-- `handle_get_scale_keysn`, `src_jni/scales.cc:256–275`; `stoi` may throw, and an index out of
bounds is not defined. -/
def handleGetScaleKeysn (scales : ScaleTable) (index : StdString) : Option StdString := do
  let scaleIndex ← (stoi index).toOption
  if scaleIndex < 0 then none
  else return keysReply (← scales[scaleIndex.toInt.toNat]?).keys

/-! ## A client -/

/-- What the callback for the reply ends with: the value that the question returns, or what it
throws. -/
abbrev Reply (α : Type) : Type := Except ItemFault α

/-- The callback of `get_scale_names`, `src_jni/scales.cc:334–343`; `process` empties the vector
that the client has. -/
def onScaleNames (own : ScaleTable) (reply : StdString) : Reply (List StdString) :=
  match scalesShape.deserialize own.scalesVariable reply with
  | (.error e, _, _) => .error e
  | (.ok _, scales, _) => .ok (namesOf scales)

/-- The callback of `get_scale_keys` with a name, `src_jni/scales.cc:358–363`. -/
def onScaleKeys (reply : StdString) : Reply (List Int32) :=
  match keysShape.deserialize (keysVariable defaultKeys.toList) reply with
  | (.error e, _, _) => .error e
  | (.ok _, retval, _) => .ok (keysOf retval)

/-- The callback of `get_scale_keys` with an index, `src_jni/scales.cc:379–390`; what the array
holds at first is not defined. -/
def onScaleKeysn (keys : Tuple Int32 7) (reply : StdString) : Reply (List Int32) :=
  match keyArrayShape.deserialize (keyArrayVariable keys) reply with
  | (.error e, _, _) => .error e
  | (.ok _, keys, _) => .ok (keyArrayOf keys).toList

/-- `get_scale_names`, `src_jni/scales.cc:326–347`; none where a value cannot be set. -/
def getScaleNames (scales own : ScaleTable) : Option (Reply (List StdString)) := do
  return onScaleNames own (← deliverText scales.handleGetScaleNames)

/-- `get_scale_keys` with a name, `src_jni/scales.cc:349–368`. -/
def getScaleKeys (scales : ScaleTable) (scaleName : StdString) : Option (Reply (List Int32)) := do
  return onScaleKeys (← deliverText (scales.handleGetScaleKeys (← deliverText scaleName)))

/-- `get_scale_keys` with an index, `src_jni/scales.cc:370–394`. -/
def getScaleKeysn (scales : ScaleTable) (index : Int32) (keys : Tuple Int32 7) :
    Option (Reply (List Int32)) := do
  let reply ← scales.handleGetScaleKeysn (← deliverText (decimalInt index.toInt))
  return onScaleKeysn keys (← deliverText reply)

/-! ## What is answered -/

/-- The names are distinct, not empty, and accepted by `set_value`. -/
structure Valid (scales : ScaleTable) : Prop where
  distinct : (scales.map Scale.name).Nodup
  named : ∀ scale ∈ scales, scale.name ≠ []
  settable : ∀ scale ∈ scales, 59 ∉ scale.name ∧ 61 ∉ scale.name

private theorem arrivals_eq_map {α : Type} {f : α → α → α} {g : α → α} (h : ∀ old v, f old v = g v)
    (old : α) (vs : List α) : arrivals f old vs = vs.map g := by
  induction vs generalizing old with
  | nil => rfl
  | cons v vs ih => rw [arrivals, ih, h, List.map_cons]

/-- Every name in the variable is as it is transmitted. -/
theorem namesOf_arrived (old : scalesShape.Value) (scales : ScaleTable) :
    namesOf (scalesShape.arrived old scales.scalesVariable) =
      scales.map fun scale ↦ Serialize.transmitted scale.name := by
  have harrivals : arrivals Scale.shape.arrived Scale.shape.initial (List.map Scale.fields scales) =
      (List.map Scale.fields scales).map (Scale.shape.arrived Scale.shape.initial) :=
    arrivals_eq_map (g := Scale.shape.arrived Scale.shape.initial) (fun _ _ ↦ rfl) _ _
  have hnames : namesOf (scalesShape.arrived old scales.scalesVariable) =
      (arrivals Scale.shape.arrived Scale.shape.initial (List.map Scale.fields scales)).map
        fun value : Scale.shape.Value ↦ value.1 := rfl
  rw [hnames, harrivals, List.map_map, List.map_map]
  rfl

theorem keysOf_arrived (old : keysShape.Value) (keys : List Int32) :
    keysOf (keysShape.arrived old (keysVariable keys)) = keys :=
  (arrivals_eq_map (g := id) (fun _ _ ↦ rfl) (0 : Int32) keys).trans keys.map_id

/-- A reply is made of an encoded text, so it can be set, and is not cut. -/
private theorem deliverText_serialized (s : Shape .calls) (v : s.Value) :
    deliverText (s.serialized v) = some (s.serialized v) := by
  have hmem : ∀ c ∈ s.serialized v, c ≠ 61 ∧ c ≠ 59 ∧ c ≠ 0 := fun c ↦ Serialize.mem_encodeString
  have hserialized : s.serialized v ≠ [] := by
    intro hnil
    have hhead := Serialize.encodeString_eq_nil_iff.mp hnil
    exact s.zero_notMem_write v (List.mem_of_mem_head? hhead)
  rw [deliverText_eq (fun h ↦ (hmem _ h).2.1 rfl) (fun h ↦ (hmem _ h).1 rfl),
    Serialize.transmitted_eq_self hserialized fun h ↦ (hmem _ h).2.2 rfl]

/-- All names come back, as they are transmitted. -/
theorem getScaleNames_eq (scales own : ScaleTable) :
    scales.getScaleNames own =
      some (.ok (scales.map fun scale ↦ Serialize.transmitted scale.name)) := by
  obtain ⟨stream, hread⟩ :=
    scalesShape.deserialize_serialized own.scalesVariable scales.scalesVariable
  have hreply : onScaleNames own scales.handleGetScaleNames =
      .ok (scales.map fun scale ↦ Serialize.transmitted scale.name) := by
    rw [onScaleNames, handleGetScaleNames, hread]
    exact congrArg Except.ok (namesOf_arrived _ _)
  rw [← hreply, getScaleNames, handleGetScaleNames, deliverText_serialized]
  rfl

/-- The keys in a reply come back. -/
theorem onScaleKeys_keysReply (keys : Tuple Int32 7) :
    onScaleKeys (keysReply keys) = .ok keys.toList := by
  obtain ⟨stream, hread⟩ := keysShape.deserialize_serialized (keysVariable defaultKeys.toList)
    (keysVariable keys.toList)
  rw [onScaleKeys, keysReply, hread]
  exact congrArg Except.ok (keysOf_arrived _ _)

/-- The server looks for the name as it is transmitted. -/
theorem getScaleKeys_eq (scales : ScaleTable) {scaleName : StdString} (hsemicolon : 59 ∉ scaleName)
    (hequals : 61 ∉ scaleName) :
    scales.getScaleKeys scaleName =
      some (.ok (scales.keysNamed (Serialize.transmitted scaleName)).toList) := by
  rw [getScaleKeys, deliverText_eq hsemicolon hequals]
  simp only [Option.bind_eq_bind, Option.bind_some, handleGetScaleKeys]
  rw [keysReply, deliverText_serialized, Option.bind_some, ← keysReply, onScaleKeys_keysReply]
  rfl

/-- A client that expects an array does not take a container. -/
theorem onScaleKeysn_keysReply (keys keys' : Tuple Int32 7) :
    onScaleKeysn keys (keysReply keys') = .error .unexpectedType := by
  obtain ⟨text, hwrite⟩ : ∃ text, keysShape.write (keysVariable keys'.toList) =
      ItemSerializer.item (str "container") text ++ [] := ⟨_, rfl⟩
  have hne : keysShape.write (keysVariable keys'.toList) ≠ [] := by
    rw [hwrite, List.append_nil]
    exact List.append_ne_nil_of_left_ne_nil (List.append_ne_nil_of_left_ne_nil
      (List.append_ne_nil_of_left_ne_nil (by decide) _) _) _
  have hrefused : Process.sub (str "array") id (Process.array (@Shape.int false).read) keys
      (.front (keysShape.write (keysVariable keys'.toList))) =
        (.error .unexpectedType, keys, .front (text ++ 59 :: [])) := by
    rw [hwrite]
    exact Process.sub_of_ne (by decide) (by decide) id _ keys text []
  have hdeserialize : keyArrayShape.deserialize (keyArrayVariable keys) (keysReply keys') =
      (.error .unexpectedType, keyArrayVariable keys, .front (text ++ 59 :: [])) := by
    rw [Shape.deserialize, keysReply, Shape.serialized, ItemSerializer.result,
      Serialize.decodeString_encodeString,
      Serialize.transmitted_eq_self hne (keysShape.zero_notMem_write _)]
    exact Process.both_of_error hrefused _
  rw [onScaleKeysn, hdeserialize]

theorem getScaleKeysn_eq (scales : ScaleTable) {index : Int32} (hindex : 0 ≤ index)
    (hlt : index.toInt.toNat < scales.length) (keys : Tuple Int32 7) :
    scales.getScaleKeysn index keys = some (.error .unexpectedType) := by
  have hreply : scales.handleGetScaleKeysn (decimalInt index.toInt) =
      some (keysReply scales[index.toInt.toNat].keys) := by
    rw [handleGetScaleKeysn, stoi_decimalInt, Except.toOption, Option.bind_eq_bind,
      Option.bind_some, if_neg (Int32.not_lt.mpr hindex), List.getElem?_eq_getElem hlt]
    rfl
  rw [getScaleKeysn, deliverText_decimalInt, Option.bind_eq_bind, Option.bind_some, hreply,
    Option.bind_some, keysReply, deliverText_serialized, ← keysReply, Option.bind_some,
    onScaleKeysn_keysReply]
  rfl

private theorem foldl_keys_of_forall_ne {scales : ScaleTable} {scaleName : StdString}
    (h : ∀ scale ∈ scales, scale.name ≠ scaleName) (keys : Tuple Int32 7) :
    scales.foldl (fun keys scale ↦ if scale.name = scaleName then scale.keys else keys) keys =
      keys := by
  induction scales with
  | nil => rfl
  | cons scale scales ih =>
    rw [List.forall_mem_cons] at h
    rw [List.foldl_cons, if_neg h.1, ih h.2]

/-- The keys of a name that only one scale has. -/
theorem keysNamed_of_mem {scales : ScaleTable} (hdistinct : (scales.map Scale.name).Nodup)
    {scale : Scale} (hmem : scale ∈ scales) : scales.keysNamed scale.name = scale.keys := by
  obtain ⟨before, after, rfl⟩ := List.append_of_mem hmem
  rw [List.map_append, List.map_cons, List.nodup_append, List.nodup_cons] at hdistinct
  have hafter : ∀ other ∈ after, other.name ≠ scale.name := fun other hother heq ↦
    hdistinct.2.1.1 (heq ▸ List.mem_map_of_mem hother)
  rw [keysNamed, List.foldl_append, List.foldl_cons, if_pos rfl, foldl_keys_of_forall_ne hafter]

/-- What is asked for is what the table holds, for all names and for all scales of it. -/
structure Answers (scales : ScaleTable) : Prop where
  names : ∀ own, scales.getScaleNames own = some (.ok (scales.map Scale.name))
  byName : ∀ scale ∈ scales, scales.getScaleKeys scale.name = some (.ok scale.keys.toList)
  byIndex : ∀ (index : Int32) (scale : Scale), 0 ≤ index → scales[index.toInt.toNat]? = some scale →
    ∀ keys, scales.getScaleKeysn index keys = some (.ok scale.keys.toList)

/-- The names come back exactly if no name is cut. -/
theorem names_answered_iff {scales : ScaleTable} (h : scales.Valid) (own : ScaleTable) :
    scales.getScaleNames own = some (.ok (scales.map Scale.name)) ↔
      ∀ scale ∈ scales, 0 ∉ scale.name := by
  rw [getScaleNames_eq, Option.some_inj, Except.ok.injEq, List.map_inj_left]
  refine forall₂_congr fun scale hmem ↦ ?_
  rw [Serialize.transmitted_eq_self_iff, and_iff_right (h.named scale hmem)]

/-- The keys of a name that is cut are those that the server has for what is left of it. -/
theorem keys_answered_iff {scales : ScaleTable} (h : scales.Valid) {scale : Scale}
    (hmem : scale ∈ scales) :
    scales.getScaleKeys scale.name = some (.ok scale.keys.toList) ↔
      0 ∉ scale.name ∨ scales.keysNamed (cString scale.name) = scale.keys := by
  obtain ⟨hsemicolon, hequals⟩ := h.settable scale hmem
  rw [getScaleKeys_eq scales hsemicolon hequals, Option.some_inj, Except.ok.injEq, Tuple.toList_inj,
    Serialize.transmitted, if_neg (h.named scale hmem)]
  refine ⟨Or.inr, fun hkeys ↦ hkeys.elim (fun hnul ↦ ?_) id⟩
  rw [cString_of_notMem hnul, keysNamed_of_mem h.distinct hmem]

end ScaleTable

end Vuknob
