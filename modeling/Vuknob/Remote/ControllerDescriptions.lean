import Vuknob.Remote.RemoteControllers
import Vuknob.Remote.ShapeRoundTrip

/-!
# Descriptions of controllers

What a client reads of a controller is what the server has written. With floating-point numbers the
reading may fail; the id, the names and the type are the same where it does not.
-/

namespace Vuknob

open Library ItemSerializer

instance decidableSolid (text : StdString) : Decidable (Solid text) :=
  inferInstanceAs (Decidable (text ≠ [] ∧ 0 ∉ text))

namespace RIController

variable {R : Type} {texts : RealTexts R} {fresh c c' : RIController R}

/-! ## The parts of a description -/

theorem readsBack_data {α : Type} {read : Deserializing α} {write : α → StdString}
    {data data' : ControllerData α} (hmin : ReadsBack read (write data.min) data'.min)
    (hmax : ReadsBack read (write data.max) data'.max)
    (hstep : ReadsBack read (write data.step) data'.step)
    (hvalue : ReadsBack read (write data.value) data'.value) :
    ReadsBack (readData read) (writeData write data) data' :=
  hmin.bind (hmax.bind (hstep.bind (hvalue.last rfl)))

theorem readsBack_ints (data : ControllerData Int32) :
    ReadsBack (readData ItemDeserializer.processInt) (writeData processInt data) data :=
  readsBack_data (ItemDeserializer.readsBack_int _) (ItemDeserializer.readsBack_int _)
    (ItemDeserializer.readsBack_int _) (ItemDeserializer.readsBack_int _)

/-- The numbers are read as these. -/
structure ReadsAs (texts : RealTexts R) (data data' : ControllerData R) : Prop where
  min : texts.read (texts.stream data.min) = .ok data'.min
  max : texts.read (texts.stream data.max) = .ok data'.max
  step : texts.read (texts.stream data.step) = .ok data'.step
  value : texts.read (texts.stream data.value) = .ok data'.value

theorem readsBack_real {typeIdentifier : StdString} (htype : 59 ∉ typeIdentifier) {x y : R}
    (h : texts.read (texts.stream x) = .ok y) :
    ReadsBack (readReal texts typeIdentifier) (writeReal texts typeIdentifier x) y := by
  refine ItemDeserializer.readsBack_item htype (texts.plain_stream x).1 fun s ↦ ?_
  rw [h]
  rfl

theorem readsBack_reals {typeIdentifier : StdString} (htype : 59 ∉ typeIdentifier)
    {data data' : ControllerData R} (h : ReadsAs texts data data') :
    ReadsBack (readData (readReal texts typeIdentifier))
      (writeData (writeReal texts typeIdentifier) data) data' :=
  readsBack_data (readsBack_real htype h.min) (readsBack_real htype h.max)
    (readsBack_real htype h.step) (readsBack_real htype h.value)

/-- The entries are in the order of a map, and each name can be sent. -/
structure Listed (names : List (Int32 × StdString)) : Prop where
  sorted : names.Pairwise fun e e' ↦ e.1 < e'.1
  solid : ∀ e ∈ names, Solid e.2

theorem readsBack_enumNames {names : List (Int32 × StdString)} (h : Listed names) :
    ReadsBack readEnumNames (enumShape.write names) names := by
  have hstrings : enumShape.Strings Solid names := fun e he ↦ ⟨trivial, h.solid e he⟩
  have hsorted : enumShape.Sorted names :=
    ⟨h.sorted.imp fun hlt ↦ decide_eq_true hlt, fun _ _ ↦ ⟨trivial, trivial⟩⟩
  have hseparate : enumShape.Separate := ⟨⟨rfl, rfl⟩, trivial, trivial⟩
  have harrived : enumShape.arrived ([] : List (Int32 × StdString)) names = names :=
    Shape.arrived_eq_self hstrings hsorted (hseparate.apart names) rfl
  intro rest
  have hread := enumShape.restores ([] : List (Int32 × StdString)) names rest
  rw [harrived] at hread
  simp only [readEnumNames, Scanner.scan, ExceptT.run_mk, StateT.run, hread]

/-! ## The whole -/

theorem zero_notMem_writeData {α : Type} {write : α → StdString} (h : ∀ a, 0 ∉ write a)
    (data : ControllerData α) : 0 ∉ writeData write data := by
  simp only [writeData, List.mem_append, not_or]
  exact ⟨h _, h _, h _, h _⟩

theorem zero_notMem_writeReal {typeIdentifier : StdString} (h : 0 ∉ typeIdentifier) (x : R) :
    0 ∉ writeReal texts typeIdentifier x := by
  have hsep : 0 ∉ str ";" := by decide
  simp only [writeReal, item, List.mem_append, not_or]
  exact ⟨⟨⟨h, hsep⟩, (texts.plain_stream x).2⟩, hsep⟩

theorem zero_notMem_writeCase (c : RIController R) : 0 ∉ c.writeCase texts := by
  have hint (v : Int32) : 0 ∉ processInt v := (solid_int v).2
  unfold writeCase
  split
  · exact zero_notMem_writeData (zero_notMem_writeReal (by decide)) _
  · exact zero_notMem_writeData (zero_notMem_writeReal (by decide)) _
  · exact zero_notMem_writeData hint _
  · exact zero_notMem_writeData hint _
  · rw [List.mem_append, not_or]
    exact ⟨zero_notMem_writeData hint _, enumShape.zero_notMem_write _⟩
  · exact (solid_bool _).2
  · exact (solid_string _).2
  · exact List.not_mem_nil

theorem solid_serderizeController (c : RIController R) : Solid (c.serderizeController texts) := by
  refine ⟨List.append_ne_nil_of_left_ne_nil (solid_int _).1 _, ?_⟩
  simp only [serderizeController, List.mem_append, not_or]
  exact ⟨(solid_int _).2, (solid_string _).2, (solid_string _).2, (solid_int _).2,
    zero_notMem_writeCase c, (solid_int _).2, (solid_int _).2⟩

theorem ofSerialized_eq (c : RIController R) :
    ofSerialized texts fresh (c.getSerializedController texts) =
      ((readController texts fresh).scan (.front (c.serderizeController texts))).1 := by
  have hsolid : Solid (c.serderizeController texts) := solid_serderizeController c
  rw [ofSerialized, getSerializedController, ItemSerializer.result,
    Serialize.decodeString_encodeString, Serialize.transmitted_eq_self hsolid.1 hsolid.2]

/-- The text of a description is transmitted as it is. -/
theorem transmitted_getSerializedController (c : RIController R) :
    Serialize.transmitted (c.getSerializedController texts) = c.getSerializedController texts := by
  have hsolid : Solid (c.serderizeController texts) := solid_serderizeController c
  rw [getSerializedController, ItemSerializer.result]
  refine Serialize.transmitted_eq_self (fun hnil ↦ ?_) fun h ↦
    (Serialize.mem_encodeString h).2.2 rfl
  exact hsolid.2 (List.mem_of_mem_head? (Serialize.encodeString_eq_nil_iff.mp hnil))

/-- The object after the fields before the data have been read. -/
def headed (fresh c : RIController R) : RIController R :=
  { fresh with
    ctrlId := c.ctrlId
    name := Serialize.transmitted c.name
    title := Serialize.transmitted c.title
    ctType := c.ctType }

theorem scan_readController (rest : StdString) :
    (readController texts fresh).scan (.front (processInt c.ctrlId ++ (processString c.name ++
      (processString c.title ++ (processInt c.ctType ++ rest))))) =
    (readCase texts (headed fresh c) >>= readMidi).scan (.front rest) := by
  rw [readController, Scanner.scan_bind (ItemDeserializer.readsBack_int c.ctrlId _),
    Scanner.scan_bind (ItemDeserializer.readsBack_string c.name _),
    Scanner.scan_bind (ItemDeserializer.readsBack_string c.title _),
    Scanner.scan_bind (ItemDeserializer.readsBack_int c.ctType _)]
  rfl

/-- If the data is read back, so is the controller. -/
theorem ofSerialized_of_readsBack {c₁ : RIController R}
    (h : ReadsBack (readCase texts (headed fresh c)) (c.writeCase texts) c₁) :
    ofSerialized texts fresh (c.getSerializedController texts) =
      .ok { c₁ with
        coarseController := c.coarseController
        fineController := c.fineController } := by
  have hmidi : ReadsBack (readMidi c₁)
      (processInt c.coarseController ++ processInt c.fineController)
      { c₁ with coarseController := c.coarseController, fineController := c.fineController } :=
    (ItemDeserializer.readsBack_int c.coarseController).bind
      ((ItemDeserializer.readsBack_int c.fineController).last rfl)
  have hread := (h.bind hmidi) []
  rw [List.append_nil] at hread
  rw [ofSerialized_eq, serderizeController, scan_readController]
  exact congrArg Prod.fst hread

/-- The data that belongs to a type does not touch the id, the names and the type. -/
theorem scan_readCase {s s' : ItemStream} (h : (readCase texts c).scan s = (.ok c', s')) :
    c'.ctrlId = c.ctrlId ∧ c'.name = c.name ∧ c'.title = c.title ∧ c'.ctType = c.ctType := by
  unfold readCase at h
  split at h
  case h_5 =>
    obtain ⟨_, _, -, h⟩ := Scanner.scan_bind_ok h
    obtain ⟨_, _, -, h⟩ := Scanner.scan_bind_ok h
    obtain ⟨hc, -⟩ := Prod.mk.inj h
    obtain rfl := Except.ok.inj hc
    exact ⟨rfl, rfl, rfl, rfl⟩
  case h_8 =>
    obtain ⟨hc, -⟩ := Prod.mk.inj h
    obtain rfl := Except.ok.inj hc
    exact ⟨rfl, rfl, rfl, rfl⟩
  all_goals
    obtain ⟨_, _, -, h⟩ := Scanner.scan_bind_ok h
    obtain ⟨hc, -⟩ := Prod.mk.inj h
    obtain rfl := Except.ok.inj hc
    exact ⟨rfl, rfl, rfl, rfl⟩

/-- What has been read has the id, the names and the type of what has been written. -/
theorem headed_of_ofSerialized
    (h : ofSerialized texts fresh (c.getSerializedController texts) = .ok c') :
    c'.ctrlId = c.ctrlId ∧ c'.name = Serialize.transmitted c.name ∧
      c'.title = Serialize.transmitted c.title ∧ c'.ctType = c.ctType := by
  rw [ofSerialized_eq, serderizeController, scan_readController] at h
  obtain ⟨s', hscan⟩ : ∃ s', Scanner.scan (readCase texts (headed fresh c) >>= readMidi) _ =
      (.ok c', s') := ⟨_, Prod.ext h rfl⟩
  obtain ⟨c₁, s₁, hcase, hrest⟩ := Scanner.scan_bind_ok hscan
  obtain ⟨_, _, -, hrest⟩ := Scanner.scan_bind_ok hrest
  obtain ⟨_, _, -, hrest⟩ := Scanner.scan_bind_ok hrest
  obtain ⟨hc', -⟩ := Prod.mk.inj hrest
  obtain rfl := Except.ok.inj hc'
  exact scan_readCase hcase

/-! ## The names of an enumeration -/

/-- The loop lists the values from here on, one after the other, with the names that they have. -/
theorem enumLoop_spec {description : ControllerDescription R} {last : Int}
    (hlast : last ≤ 2147483647) {fuel : Nat} {k : Int} {names result : List (Int32 × StdString)}
    (hk : -2147483648 ≤ k) (h : enumLoop description last fuel k names = some result) :
    ∃ more, result = names ++ more ∧ more.Pairwise (fun e e' ↦ e.1 < e'.1) ∧
      (∀ e ∈ more, k ≤ e.1.toInt ∧ description.enumNames.lookup e.1 = some e.2) ∧
      ∀ v : Int32, k ≤ v.toInt → ((∃ name, (v, name) ∈ more) ↔
        v.toInt ≤ last ∧ description.stepI.toInt ∣ v.toInt - k) := by
  induction fuel generalizing k names with
  | zero => cases h
  | succ fuel ih =>
    rw [enumLoop] at h
    split at h
    · next hle =>
      obtain ⟨name, hname, h⟩ := Option.bind_eq_some_iff.mp h
      dsimp only at h
      split at h
      · next hnext =>
        have hstep : 0 < description.stepI.toInt := Int32.lt_iff_toInt_lt.mp hnext.1
        have hvalue : (Int32.ofInt k).toInt = k :=
          Int32.toInt_ofInt_of_le hk (Int.lt_of_le_of_lt (hle.trans hlast) (by decide))
        obtain ⟨more, rfl, hsorted, hnamed, hlisted⟩ := ih (by omega) h
        refine ⟨(Int32.ofInt k, name) :: more, by rw [List.append_assoc]; rfl,
          List.pairwise_cons.mpr ⟨fun e he ↦ ?_, hsorted⟩, ?_, fun v hv ↦ ?_⟩
        · have hfrom : k + description.stepI.toInt ≤ e.1.toInt := (hnamed e he).1
          rw [Int32.lt_iff_toInt_lt, hvalue]
          omega
        · rw [List.forall_mem_cons]
          refine ⟨⟨hvalue.ge, hname⟩, fun e he ↦ ⟨?_, (hnamed e he).2⟩⟩
          have hfrom : k + description.stepI.toInt ≤ e.1.toInt := (hnamed e he).1
          omega
        · by_cases hfrom : k + description.stepI.toInt ≤ v.toInt
          · have hne : v ≠ Int32.ofInt k := by
              rintro rfl
              omega
            have hmore : (∃ name', (v, name') ∈ (Int32.ofInt k, name) :: more) ↔
                ∃ name', (v, name') ∈ more := by
              refine exists_congr fun name' ↦ ?_
              rw [List.mem_cons, Prod.mk.injEq]
              exact or_iff_right fun heq ↦ hne heq.1
            have hdvd : description.stepI.toInt ∣ v.toInt - (k + description.stepI.toInt) ↔
                description.stepI.toInt ∣ v.toInt - k := by
              refine (Int.dvd_iff_dvd_of_dvd_sub ?_).symm
              rw [← Int.sub_sub, Int.sub_sub_self]
            rw [hmore, hlisted v hfrom, hdvd]
          · have hnone : ¬ ∃ name', (v, name') ∈ more := by
              rintro ⟨name', hmem⟩
              exact hfrom (hnamed _ hmem).1
            constructor
            · rintro ⟨name', hmem⟩
              rcases List.mem_cons.mp hmem with heq | hmem
              · rw [(Prod.mk.inj heq).1, hvalue, Int.sub_self]
                exact ⟨hle, Int.dvd_zero _⟩
              · exact absurd ⟨name', hmem⟩ hnone
            · rintro ⟨-, hdvd⟩
              have hzero : v.toInt - k = 0 :=
                Int.eq_zero_of_dvd_of_nonneg_of_lt (by omega) (by omega) hdvd
              have hv : v = Int32.ofInt k := by
                rw [← Int32.toInt_inj, hvalue]
                omega
              exact ⟨name, hv ▸ List.mem_cons_self⟩
      · cases h
    · next hgt =>
      obtain rfl := Option.some.inj h
      refine ⟨[], (List.append_nil _).symm, .nil, fun e he ↦ (by cases he), fun v hv ↦ ?_⟩
      constructor
      · rintro ⟨name, hmem⟩
        cases hmem
      · rintro ⟨hle, -⟩
        omega

/-- An entry of a sorted list is found. -/
theorem lookup_of_mem {names : List (Int32 × StdString)}
    (h : names.Pairwise fun e e' ↦ e.1 < e'.1) {v : Int32} {name : StdString}
    (hmem : (v, name) ∈ names) : names.lookup v = some name := by
  obtain ⟨front, back, rfl⟩ := List.append_of_mem hmem
  rw [List.lookup_eq_some_iff]
  refine ⟨front, back, rfl, fun e he ↦ ?_⟩
  have hlt : e.1 < v := (List.pairwise_append.mp h).2.2 e he _ List.mem_cons_self
  exact bne_iff_ne.mpr (Int32.ne_of_lt hlt).symm

/-! ## What is shown -/

/-- What a client is shown of a controller. -/
structure Shows (texts : RealTexts R) (reals : Reals R) (memory : ControllerMemory R)
    (ctrl : Controller) (description : ControllerDescription R) (r : RIController R) : Prop where
  name : r.name = ctrl.name
  title : r.title = Serialize.transmitted description.title
  type : ricCase r.ctType = some ctrl.type
  number : ctrl.type = .int ∨ ctrl.type = .enum ∨ ctrl.type = .sigid →
    r.dataI = ⟨ctrl.minI, ctrl.maxI, description.stepI, memory.word ctrl.name⟩
  real : ctrl.type = .float ∨ ctrl.type = .double → ReadsAs texts ⟨description.minR,
    description.maxR, description.stepR, reals.get ctrl (memory.real ctrl.name)⟩ r.dataR
  truth : ctrl.type = .bool → r.blData = decide (memory.word ctrl.name ≠ 0)
  text : ctrl.type = .string →
    r.strData = Serialize.transmitted [(memory.text ctrl.name).headD 0]
  names : ctrl.type = .enum → ∀ v, r.getValueName v =
    if ctrl.minI ≤ v ∧ v ≤ ctrl.maxI ∧ description.stepI.toInt ∣ v.toInt - ctrl.minI.toInt then
      description.enumNames.lookup v
    else none
  midi : r.hasMidiController = description.midi.map fun midi ↦
    (midi.1, if 0 ≤ midi.2 ∧ midi.2 < 128 then midi.2 else -1)

/-- The names can be sent, and the numbers can be read. -/
structure Sendable (texts : RealTexts R) (reals : Reals R) (memory : ControllerMemory R)
    (ctrl : Controller) (description : ControllerDescription R) : Prop where
  name : Solid ctrl.name
  names : ∀ e ∈ description.enumNames, Solid e.2
  real : ctrl.type = .float ∨ ctrl.type = .double → ∃ data, ReadsAs texts ⟨description.minR,
    description.maxR, description.stepR, reals.get ctrl (memory.real ctrl.name)⟩ data

theorem enumLoop_listed {ctrl : Controller} {description : ControllerDescription R} {fuel : Nat}
    {names : List (Int32 × StdString)}
    (h : enumLoop description ctrl.maxI.toInt fuel ctrl.minI.toInt [] = some names) :
    names.Pairwise (fun e e' ↦ e.1 < e'.1) ∧
      (∀ e ∈ names, description.enumNames.lookup e.1 = some e.2) ∧
      ∀ v, names.lookup v =
        if ctrl.minI ≤ v ∧ v ≤ ctrl.maxI ∧ description.stepI.toInt ∣ v.toInt - ctrl.minI.toInt then
          description.enumNames.lookup v
        else none := by
  have hmax := ctrl.maxI.toInt_lt
  have hmin := ctrl.minI.le_toInt
  obtain ⟨more, rfl, hsorted, hnamed, hlisted⟩ := enumLoop_spec (by omega) (by omega) h
  refine ⟨hsorted, fun e he ↦ (hnamed e he).2, fun v ↦ ?_⟩
  by_cases hfrom : ctrl.minI.toInt ≤ v.toInt
  · have hiff := hlisted v hfrom
    split
    · next hin =>
      obtain ⟨name, hmem⟩ := hiff.mpr ⟨Int32.le_iff_toInt_le.mp hin.2.1, hin.2.2⟩
      rw [lookup_of_mem hsorted hmem, (hnamed _ hmem).2]
    · next hout =>
      rw [List.lookup_eq_none_iff]
      intro e he
      refine bne_iff_ne.mpr ?_
      rintro rfl
      obtain ⟨hle, hdvd⟩ := hiff.mp ⟨e.2, he⟩
      exact hout ⟨Int32.le_iff_toInt_le.mpr hfrom, Int32.le_iff_toInt_le.mpr hle, hdvd⟩
  · rw [if_neg fun hin ↦ hfrom (Int32.le_iff_toInt_le.mp hin.1), List.lookup_eq_none_iff]
    intro e he
    refine bne_iff_ne.mpr ?_
    rintro rfl
    exact hfrom (hnamed e he).1

/-- What `midiControllers` returns is shown as it is. -/
theorem hasMidiController_of_midiControllers {midi : Option (Int32 × Int32)} {coarse fine : Int32}
    (h : midiControllers midi = some (coarse, fine)) :
    (if coarse = -1 ∧ fine = -1 then none else some (coarse, fine)) =
      midi.map fun midi ↦ (midi.1, if 0 ≤ midi.2 ∧ midi.2 < 128 then midi.2 else -1) := by
  cases midi with
  | none =>
    obtain ⟨rfl, rfl⟩ := Prod.mk.inj (Option.some.inj h)
    rfl
  | some midi =>
    rw [midiControllers] at h
    split at h
    · cases h
    · next hcoarse =>
      obtain ⟨rfl, rfl⟩ := Prod.mk.inj (Option.some.inj h)
      rw [if_neg]
      · rfl
      · rintro ⟨hminus, -⟩
        rw [hminus] at hcoarse
        exact hcoarse ⟨.inl (by decide), by decide⟩

/-- The object after the data has been read, with numbers that have been read as these. -/
def restored (fresh c : RIController R) (dataR : ControllerData R) : RIController R :=
  match ricCase c.ctType with
  | some .float | some .double => { headed fresh c with dataR }
  | some .int | some .sigid => { headed fresh c with dataI := c.dataI }
  | some .enum => { headed fresh c with dataI := c.dataI, enumNames := c.enumNames }
  | some .bool => { headed fresh c with blData := c.blData }
  | some .string => { headed fresh c with strData := Serialize.transmitted c.strData }
  | none => headed fresh c

theorem headed_restored (fresh c : RIController R) (dataR : ControllerData R) :
    (restored fresh c dataR).ctrlId = c.ctrlId ∧
      (restored fresh c dataR).name = Serialize.transmitted c.name ∧
      (restored fresh c dataR).title = Serialize.transmitted c.title ∧
      (restored fresh c dataR).ctType = c.ctType := by
  unfold restored
  split <;> exact ⟨rfl, rfl, rfl, rfl⟩

theorem readsBack_readCase {dataR : ControllerData R}
    (hlisted : ricCase c.ctType = some .enum → Listed c.enumNames)
    (hreal : ricCase c.ctType = some .float ∨ ricCase c.ctType = some .double →
      ReadsAs texts c.dataR dataR) :
    ReadsBack (readCase texts (headed fresh c)) (c.writeCase texts) (restored fresh c dataR) := by
  have htype : (headed fresh c).ctType = c.ctType := rfl
  unfold readCase writeCase restored
  rw [htype]
  cases hcase : ricCase c.ctType with
  | none => exact fun rest ↦ rfl
  | some type =>
    cases type with
    | int | sigid => exact (readsBack_ints c.dataI).last rfl
    | enum => exact (readsBack_ints c.dataI).bind ((readsBack_enumNames (hlisted hcase)).last rfl)
    | bool => exact (ItemDeserializer.readsBack_bool c.blData).last rfl
    | string => exact (ItemDeserializer.readsBack_string c.strData).last rfl
    | float => exact (readsBack_reals (by decide) (hreal (.inl hcase))).last rfl
    | double => exact (readsBack_reals (by decide) (hreal (.inr hcase))).last rfl

/-- What the server writes of a controller. -/
structure Describes (reals : Reals R) (memory : ControllerMemory R) (ctrl : Controller)
    (description : ControllerDescription R) (r : RIController R) : Prop where
  name : r.name = ctrl.name
  title : r.title = description.title
  type : r.ctType = ctrl.type.ricType
  number : ctrl.type ≠ .float → ctrl.type ≠ .double →
    r.dataI = ⟨ctrl.minI, ctrl.maxI, description.stepI, memory.word ctrl.name⟩
  real : ctrl.type = .float ∨ ctrl.type = .double → r.dataR = ⟨description.minR,
    description.maxR, description.stepR, reals.get ctrl (memory.real ctrl.name)⟩
  text : r.strData = [(memory.text ctrl.name).headD 0]
  truth : r.blData = decide (memory.word ctrl.name ≠ 0)
  names : namesFor ctrl description = some r.enumNames
  midi : midiControllers description.midi = some (r.coarseController, r.fineController)

theorem describes_of_ofController {reals : Reals R} {memory : ControllerMemory R} {ctrlId : Int32}
    {ctrl : Controller} {description : ControllerDescription R} {r : RIController R}
    (h : ofController reals memory fresh ctrlId ctrl description = some r) :
    r.ctrlId = ctrlId ∧ Describes reals memory ctrl description r := by
  unfold ofController at h
  obtain ⟨names, hnames, h⟩ := Option.bind_eq_some_iff.mp h
  obtain ⟨⟨coarse, fine⟩, hmidi, h⟩ := Option.bind_eq_some_iff.mp h
  obtain rfl := Option.some.inj h
  exact ⟨rfl, rfl, rfl, rfl, fun hfloat hdouble ↦ if_neg (not_or.mpr ⟨hfloat, hdouble⟩),
    fun hreal ↦ if_pos hreal, rfl, rfl, hnames, hmidi⟩

section

variable {reals : Reals R} {memory : ControllerMemory R} {ctrl : Controller}
  {description : ControllerDescription R} {r : RIController R} {dataR : ControllerData R}

theorem Describes.ricCase_eq (h : Describes reals memory ctrl description r) :
    ricCase r.ctType = some ctrl.type := by
  rw [h.type, ricCase_ricType]

theorem Describes.listed (h : Describes reals memory ctrl description r)
    (hnames : ∀ e ∈ description.enumNames, Solid e.2) (htype : ctrl.type = .enum) :
    Listed r.enumNames ∧ ∀ v, r.enumNames.lookup v =
      if ctrl.minI ≤ v ∧ v ≤ ctrl.maxI ∧ description.stepI.toInt ∣ v.toInt - ctrl.minI.toInt then
        description.enumNames.lookup v
      else none := by
  have hloop := h.names
  rw [namesFor, if_pos htype] at hloop
  obtain ⟨hsorted, hnamed, hlookup⟩ := enumLoop_listed hloop
  refine ⟨⟨hsorted, fun e he ↦ hnames (e.1, e.2) ?_⟩, hlookup⟩
  obtain ⟨front, back, heq, -⟩ := List.lookup_eq_some_iff.mp (hnamed e he)
  exact heq ▸ List.mem_append_right _ List.mem_cons_self

/-- What is read of a description shows the controller. -/
theorem Describes.shows (h : Describes reals memory ctrl description r)
    (hsend : Sendable texts reals memory ctrl description)
    (hdataR : ctrl.type = .float ∨ ctrl.type = .double → ReadsAs texts r.dataR dataR) :
    Shows texts reals memory ctrl description { restored fresh r dataR with
      coarseController := r.coarseController
      fineController := r.fineController } := by
  obtain ⟨-, hname, htitle, htype⟩ := headed_restored fresh r dataR
  have hdata : ∀ type, ctrl.type = type → ricCase r.ctType = some type := fun type heq ↦
    heq ▸ h.ricCase_eq
  refine ⟨?_, ?_, ?_, fun hnumber ↦ ?_, fun hreal ↦ ?_, fun hbool ↦ ?_, fun hstring ↦ ?_,
    fun henum v ↦ ?_, hasMidiController_of_midiControllers h.midi⟩
  · refine hname.trans ?_
    rw [h.name, Serialize.transmitted_eq_self hsend.name.1 hsend.name.2]
  · exact htitle.trans (congrArg _ h.title)
  · exact (congrArg ricCase htype).trans h.ricCase_eq
  · refine Eq.trans ?_ (h.number (fun hfloat ↦ ?_) fun hdouble ↦ ?_)
    · unfold restored
      rcases hnumber with heq | heq | heq <;> rw [hdata _ heq]
    · simp [hfloat] at hnumber
    · simp [hdouble] at hnumber
  · have hread := h.real hreal ▸ hdataR hreal
    unfold restored
    rcases hreal with heq | heq <;> rw [hdata _ heq] <;> exact hread
  · unfold restored
    rw [hdata _ hbool]
    exact h.truth
  · unfold restored
    rw [hdata _ hstring]
    exact congrArg Serialize.transmitted h.text
  · unfold restored
    rw [hdata _ henum]
    exact (h.listed hsend.names henum).2 v

/-- A client is shown what the server knows of the controller. -/
theorem exists_shows (h : Describes reals memory ctrl description r)
    (hsend : Sendable texts reals memory ctrl description) :
    ∃ r', ofSerialized texts fresh (r.getSerializedController texts) = .ok r' ∧
      r'.ctrlId = r.ctrlId ∧ Shows texts reals memory ctrl description r' := by
  obtain ⟨dataR, hdataR⟩ : ∃ dataR, ctrl.type = .float ∨ ctrl.type = .double →
      ReadsAs texts r.dataR dataR := by
    by_cases htype : ctrl.type = .float ∨ ctrl.type = .double
    · obtain ⟨data, hdata⟩ := hsend.real htype
      exact ⟨data, fun _ ↦ h.real htype ▸ hdata⟩
    · exact ⟨r.dataR, fun hreal ↦ absurd hreal htype⟩
  have htype : ∀ type, ricCase r.ctType = some type → ctrl.type = type := fun type hcase ↦
    Option.some.inj (h.ricCase_eq.symm.trans hcase)
  have hread : ReadsBack (readCase texts (headed fresh r)) (r.writeCase texts)
      (restored fresh r dataR) :=
    readsBack_readCase (fun hcase ↦ (h.listed hsend.names (htype _ hcase)).1) fun hcase ↦
      hdataR (hcase.imp (htype _) (htype _))
  exact ⟨_, ofSerialized_of_readsBack hread, (headed_restored fresh r dataR).1,
    h.shows hsend hdataR⟩

end

end RIController

namespace RemoteMachine

variable {R : Type} {m : RemoteMachine R}

/-- A machine with an enumeration that has three values. -/
def waveform : RemoteMachine Unit where
  names := [str ":wave"]
  find k := if k = str ":wave" then some ⟨k, .enum, 0, 4⟩ else none
  name_of_find h := by
    split at h
    · exact Option.some.inj h ▸ rfl
    · cases h
  description _ := ⟨str "wave", 2, (), (), (), [(0, str "sine"), (2, str "saw"), (4, str "noise")],
    some (7, 128)⟩
  reals := ControllerTable.noReals
  texts := ⟨fun _ ↦ str "0", fun _ ↦ str "0", fun _ ↦ .ok (), id, fun _ ↦ by decide, fun _ ↦ by
    decide, fun _ ↦ rfl⟩
  fresh := ⟨-1, 0, [], [], ⟨0, 0, 0, 0⟩, ⟨(), (), (), ()⟩, [], false, [], -1, -1⟩

end RemoteMachine

end Vuknob
