import Vuknob.Remote.ControllerSessions

/-!
# Settings from afar

What clients set in a machine is set there in the order in which each of them has set it. An id
denotes one controller as long as its client is connected, and requests and replies carry what the
one side has written to the other one.
-/

namespace Vuknob

open Library ItemSerializer

variable {R : Type}

/-! ## Requests that arrive -/

/-- A value is found under its key. -/
theorem getElem?_travelled {calls : List (StdString × StdString)}
    (hkeys : ∀ call ∈ calls, Solid call.1) (hnodup : (calls.map Prod.fst).Nodup)
    {key value : StdString} (h : (key, value) ∈ calls) :
    (travelled calls)[key]? = some (Serialize.transmitted value) := by
  have hfst : (calls.map (Prod.map Serialize.transmitted Serialize.transmitted)).map Prod.fst =
      calls.map Prod.fst := by
    rw [List.map_map]
    refine List.map_congr_left fun call hcall ↦ ?_
    exact Serialize.transmitted_eq_self (hkeys call hcall).1 (hkeys call hcall).2
  rw [travelled, Library.getElem?_insertMany_eq_some_iff,
    Library.surviving_of_nodup (hfst ▸ hnodup)]
  refine .inl (List.mem_map.mpr ⟨_, h, Prod.ext ?_ rfl⟩)
  exact Serialize.transmitted_eq_self (hkeys _ h).1 (hkeys _ h).2

theorem StringMap.getValue_travelled {calls : List (StdString × StdString)}
    (hkeys : ∀ call ∈ calls, Solid call.1) (hnodup : (calls.map Prod.fst).Nodup)
    {key value : StdString} (h : (key, value) ∈ calls) :
    StringMap.getValue (travelled calls) key = .ok (Serialize.transmitted value) := by
  rw [StringMap.getValue, getElem?_travelled hkeys hnodup h]

theorem solid_decimalInt (v : Int) : Solid (decimalInt v) :=
  ⟨decimalInt_ne_nil v, fun h ↦ (mem_decimalInt h).1 rfl⟩

theorem transmitted_of_solid {s : StdString} (h : Solid s) : Serialize.transmitted s = s :=
  Serialize.transmitted_eq_self h.1 h.2

/-- The value that has been set is read again. -/
theorem readValue_valueText {texts : RealTexts R} {type : ControllerType}
    {value : ControllerValue R} (h : type.Suits value) :
    readValue texts type (Serialize.transmitted (RIController.valueText texts value)) =
      .ok (texts.arrive value) := by
  cases value with
  | int v =>
    have hread : converted (stoi (Serialize.transmitted (decimalInt v.toInt))) = .ok v := by
      rw [transmitted_of_solid (solid_decimalInt _), stoi_decimalInt]
      rfl
    cases type with
    | int | enum | sigid => exact congrArg (Except.map _) hread
    | _ => cases h
  | bool b =>
    cases type with
    | bool =>
      have htext : (Serialize.transmitted (if b then str "true" else str "false") = str "true") =
          (b = true) := by
        cases b <;> decide
      exact congrArg (fun b ↦ Except.ok (ControllerValue.bool b)) (by
        simp only [RIController.valueText, htext, Bool.decide_eq_true])
    | _ => cases h
  | string s =>
    cases type with
    | string => rfl
    | _ => cases h
  | real x =>
    have hread : converted (texts.read (Serialize.transmitted (texts.decimal x))) =
        .ok (texts.rounded x) := by
      rw [transmitted_of_solid (texts.plain_decimal x).2.2, texts.read_decimal]
      rfl
    cases type with
    | float | double => exact congrArg (Except.map _) hread
    | _ => cases h


namespace RemoteMachine

variable {m : RemoteMachine R} {alive : Nat → Bool} {memory : ControllerMemory R}
  {containers containers' : ClientContainers} {k : Nat}

/-- A request for a controller is one for the name that has been asked for. -/
theorem processMessageServer_get {name : StdString} (hname : Solid name) :
    m.processMessageServer alive memory containers k (travelled (getCtrlCalls name)) =
      (m.processGetCtrlMessage alive memory containers k name).map fun r ↦ .reply r.1 r.2 := by
  have hkeys : ∀ call ∈ getCtrlCalls name, Solid call.1 := by
    simp only [getCtrlCalls, List.forall_mem_cons, List.not_mem_nil, false_implies, implies_true,
      and_true]
    exact ⟨by decide, by decide⟩
  have hnodup : ((getCtrlCalls name).map Prod.fst).Nodup := by
    show [str "command", str "ctrlname"].Nodup
    decide
  have hcommand : StringMap.getValue (travelled (getCtrlCalls name)) (str "command") =
      .ok (str "get_ctrl") := StringMap.getValue_travelled hkeys hnodup List.mem_cons_self
  have hctrlName : StringMap.getValue (travelled (getCtrlCalls name)) (str "ctrlname") =
      .ok name := by
    rw [StringMap.getValue_travelled hkeys hnodup (List.mem_cons_of_mem _ List.mem_cons_self),
      transmitted_of_solid hname]
  have hne : str "get_ctrl" ≠ str "setctrval" := by decide
  rw [processMessageServer, hcommand]
  simp only [if_neg hne, if_true, hctrlName]
  cases m.processGetCtrlMessage alive memory containers k name <;> rfl

/-- A request to set a controller that the client has been given is one for this controller. -/
theorem processMessageServer_set {c : RIController R} {type : ControllerType}
    {value : ControllerValue R} (hbound : m.Bound containers k c.ctrlId c.name type.ricType)
    (hsuits : type.Suits value) :
    ∃ ctrl, m.find c.name = some ctrl ∧ m.processMessageServer alive memory containers k
      (travelled (c.setValue m.texts value).2) = some (.set ctrl (m.texts.arrive value)) := by
  obtain ⟨sscc, ctrl, hsscc, hctrl, hfind, htype⟩ := hbound
  obtain rfl : type = ctrl.type := by
    have hcase := congrArg ricCase htype
    rw [ricCase_ricType, ricCase_ricType] at hcase
    exact Option.some.inj hcase
  let calls := (c.setValue m.texts value).2
  have hkeys : ∀ call ∈ calls, Solid call.1 := by
    simp only [calls, RIController.setValue, List.forall_mem_cons, List.not_mem_nil, false_implies,
      implies_true, and_true]
    exact ⟨by decide, by decide, by decide⟩
  have hnodup : (calls.map Prod.fst).Nodup := by
    show [str "command", str "ctrl_id", str "value"].Nodup
    decide
  have hcommand : StringMap.getValue (travelled calls) (str "command") = .ok (str "setctrval") :=
    StringMap.getValue_travelled hkeys hnodup List.mem_cons_self
  have hctrlId : StringMap.getValue (travelled calls) (str "ctrl_id") =
      .ok (decimalInt c.ctrlId.toInt) := by
    rw [StringMap.getValue_travelled hkeys hnodup (List.mem_cons_of_mem _ List.mem_cons_self),
      transmitted_of_solid (solid_decimalInt _)]
  have hvalue : StringMap.getValue (travelled calls) (str "value") =
      .ok (Serialize.transmitted (RIController.valueText m.texts value)) :=
    StringMap.getValue_travelled hkeys hnodup
      (List.mem_cons_of_mem _ (List.mem_cons_of_mem _ List.mem_cons_self))
  refine ⟨ctrl, hfind, ?_⟩
  show m.processMessageServer alive memory containers k (travelled calls) = _
  rw [processMessageServer, hcommand]
  simp only [if_true, processSetctrlValMessage, hsscc, hctrlId, hvalue]
  simp only [bind, Except.bind, stoi_decimalInt, converted, hctrl, readValue_valueText hsuits]
  rfl

/-- Only the container of the client matters. -/
theorem Bound.congr {ctrlId : Int32} {name : StdString} {ctType : Int32}
    (h : m.Bound containers k ctrlId name ctType) (heq : containers' k = containers k) :
    m.Bound containers' k ctrlId name ctType := by
  obtain ⟨sscc, ctrl, hsscc, hrest⟩ := h
  exact ⟨sscc, ctrl, heq.trans hsscc, hrest⟩

theorem replay_append (applied : List (Nat × StdString × ControllerValue R))
    (entry : Nat × StdString × ControllerValue R) {ctrl : Controller}
    (h : m.find entry.2.1 = some ctrl) :
    m.replay (applied ++ [entry]) memory =
      ctrl.internalSetValue m.reals entry.2.2 (m.replay applied memory) := by
  rw [replay, List.foldl_append]
  simp only [List.foldl_cons, List.foldl_nil, h]
  rfl

end RemoteMachine

/-! ## Ids -/

namespace ServerSideControllerContainer

/-- An id that denotes a controller is in use. -/
structure Sound (sscc : ServerSideControllerContainer) : Prop where
  available : ∀ id ∈ sscc.ids.availableIds, id < sscc.ids.totalAmount
  used : ∀ ctrlId ctrl, sscc.id2ctrl ctrlId = some ctrl →
    ctrlId.toUInt32 < sscc.ids.totalAmount ∧ ctrlId.toUInt32 ∉ sscc.ids.availableIds

theorem sound_new : new.Sound where
  available := SequenceServers.ids_new.available
  used _ _ h := by cases h

/-- A new id denotes nothing yet, and afterwards what it has been given for. -/
theorem Sound.register {sscc : ServerSideControllerContainer} (h : sscc.Sound)
    (hroom : sscc.ids.totalAmount.toNat + 1 < 4294967296) (ctrl : Controller) :
    sscc.id2ctrl (sscc.register ctrl).1 = none ∧ (sscc.register ctrl).2.Sound := by
  have hsucc : (sscc.ids.totalAmount + 1).toNat = sscc.ids.totalAmount.toNat + 1 := by
    rw [UInt32.toNat_add, UInt32.toNat_one]
    omega
  have hused : ∀ ctrlId ctrl, sscc.id2ctrl ctrlId = some ctrl →
      ctrlId.toUInt32 < sscc.ids.totalAmount ∧ ctrlId.toUInt32 ∉ sscc.ids.availableIds := h.used
  unfold ServerSideControllerContainer.register
  rcases sscc.ids.getId_cases with ⟨hmem, hids⟩ | ⟨hempty, hids⟩
  · have hold : sscc.id2ctrl sscc.ids.getId.1.toInt32 = none :=
      Option.eq_none_iff_forall_ne_some.mpr fun ctrl hctrl ↦ (hused _ ctrl hctrl).2 hmem
    refine ⟨hold, ?_, fun ctrlId ctrl' hctrl' ↦ ?_⟩
    · rw [hids]
      exact fun id hid ↦ h.available id (Std.ExtTreeSet.mem_of_mem_erase hid)
    · rw [hids]
      by_cases heq : ctrlId = sscc.ids.getId.1.toInt32
      · rw [heq, UInt32.toUInt32_toInt32]
        exact ⟨h.available _ hmem, fun hin ↦
          (Std.ExtTreeSet.mem_erase.mp hin).1 Std.ReflCmp.compare_self⟩
      · replace hctrl' := (Function.update_of_ne heq _ sscc.id2ctrl).symm.trans hctrl'
        obtain ⟨hlt, hnot⟩ := hused ctrlId ctrl' hctrl'
        exact ⟨hlt, fun hin ↦ hnot (Std.ExtTreeSet.mem_of_mem_erase hin)⟩
  · have hless : sscc.ids.totalAmount < sscc.ids.totalAmount + 1 := by
      rw [UInt32.lt_iff_toNat_lt]
      omega
    have hold : sscc.id2ctrl sscc.ids.totalAmount.toInt32 = none :=
      Option.eq_none_iff_forall_ne_some.mpr fun ctrl hctrl ↦
        UInt32.lt_irrefl _ (hused _ ctrl hctrl).1
    rw [hids]
    refine ⟨hold, fun id hid ↦ absurd hid (hempty id), fun ctrlId ctrl' hctrl' ↦
      ⟨?_, hempty _⟩⟩
    by_cases heq : ctrlId = sscc.ids.totalAmount.toInt32
    · rw [heq, UInt32.toUInt32_toInt32]
      exact hless
    · replace hctrl' := (Function.update_of_ne heq _ sscc.id2ctrl).symm.trans hctrl'
      exact UInt32.lt_trans (hused ctrlId ctrl' hctrl').1 hless

end ServerSideControllerContainer

/-! ## What holds of every session -/

/-- The requests on their way carry these settings; the others ask for controllers that there
are. -/
inductive Carries (m : RemoteMachine R) (containers : ClientContainers) (k : Nat) :
    List (List (StdString × StdString)) → List (StdString × ControllerValue R) → Prop
  | nil : Carries m containers k [] []
  | get {name : StdString} {requests : List (List (StdString × StdString))}
      {pending : List (StdString × ControllerValue R)} (hname : Solid name)
      (hrest : Carries m containers k requests pending) :
      Carries m containers k (getCtrlCalls name :: requests) pending
  | set {c : RIController R} {type : ControllerType} {value : ControllerValue R}
      {requests : List (List (StdString × StdString))}
      {pending : List (StdString × ControllerValue R)}
      (hbound : m.Bound containers k c.ctrlId c.name type.ricType) (hsuits : type.Suits value)
      (hrest : Carries m containers k requests pending) :
      Carries m containers k ((c.setValue m.texts value).2 :: requests)
        ((c.name, value) :: pending)

section

variable {m : RemoteMachine R} {containers containers' : ClientContainers} {k : Nat}

theorem Carries.append {requests requests' : List (List (StdString × StdString))}
    {pending pending' : List (StdString × ControllerValue R)}
    (h : Carries m containers k requests pending)
    (h' : Carries m containers k requests' pending') :
    Carries m containers k (requests ++ requests') (pending ++ pending') := by
  induction h with
  | nil => exact h'
  | get hname _ ih => exact .get hname ih
  | set hbound hsuits _ ih => exact .set hbound hsuits ih

theorem Carries.mono {requests : List (List (StdString × StdString))}
    {pending : List (StdString × ControllerValue R)}
    (hbound : ∀ ctrlId name ctType, m.Bound containers k ctrlId name ctType →
      m.Bound containers' k ctrlId name ctType)
    (h : Carries m containers k requests pending) : Carries m containers' k requests pending := by
  induction h with
  | nil => exact .nil
  | get hname _ ih => exact .get hname ih
  | set hb hsuits _ ih => exact .set (hbound _ _ _ hb) hsuits ih

theorem Carries.length_le {requests : List (List (StdString × StdString))}
    {pending : List (StdString × ControllerValue R)}
    (h : Carries m containers k requests pending) : pending.length ≤ requests.length := by
  induction h with
  | nil => exact Nat.le_refl _
  | get _ _ ih => exact Nat.le_succ_of_le ih
  | set _ _ _ ih => exact Nat.succ_le_succ ih

/-- Settings as they arrive. -/
def RealTexts.arriveAll (texts : RealTexts R) (settings : List (StdString × ControllerValue R)) :
    List (StdString × ControllerValue R) :=
  settings.map fun setting ↦ (setting.1, texts.arrive setting.2)

/-- What holds of a client: what it has set has been applied or is on its way, and its ids denote
the controllers that it has asked for. -/
structure ControllerClient.Sound (m : RemoteMachine R) (containers : ClientContainers) (k : Nat)
    (applied : List (StdString × ControllerValue R)) (client : ControllerClient R) : Prop where
  carried : ∃ pending, Carries m containers k client.requests pending ∧
    m.texts.arriveAll client.sent = applied ++ m.texts.arriveAll pending
  replied : ∀ reply ∈ client.replies, ∃ r : RIController R,
    reply = r.getSerializedController m.texts ∧ Solid r.name ∧
      m.Bound containers k r.ctrlId r.name r.ctType
  held : ∀ c ∈ client.controllers, m.Bound containers k c.ctrlId c.name c.ctType

theorem ControllerClient.Sound.mono {applied : List (StdString × ControllerValue R)}
    {client : ControllerClient R} (h : client.Sound m containers k applied)
    (hbound : ∀ ctrlId name ctType, m.Bound containers k ctrlId name ctType →
      m.Bound containers' k ctrlId name ctType) : client.Sound m containers' k applied := by
  obtain ⟨pending, hcarries, hsent⟩ := h.carried
  refine ⟨⟨pending, hcarries.mono hbound, hsent⟩, fun reply hreply ↦ ?_, fun c hc ↦
    hbound _ _ _ (h.held c hc)⟩
  obtain ⟨r, heq, hname, hb⟩ := h.replied reply hreply
  exact ⟨r, heq, hname, hbound _ _ _ hb⟩

end

namespace ControllerSession

/-- What holds of a session that started with this memory. -/
structure Sound (m : RemoteMachine R) (initial : ControllerMemory R) (s : ControllerSession R) :
    Prop where
  clients : ∀ k client, s.clients k = some client →
    client.Sound m s.containers k (s.appliedBy k) ∧ k < s.connected
  containers : ∀ k sscc, s.containers k = some sscc → sscc.Sound
  later : ∀ k, s.connected ≤ k → s.appliedBy k = []
  memory : s.memory = m.replay s.applied initial
  failed : s.failed = []

variable {m : RemoteMachine R} {initial : ControllerMemory R} {s s' : ControllerSession R}

theorem sound_start (m : RemoteMachine R) (initial : ControllerMemory R) :
    (start initial).Sound m initial where
  clients _ _ h := by cases h
  containers _ _ h := by cases h
  later _ _ := rfl
  memory := rfl
  failed := rfl

theorem clients_withClient (s : ControllerSession R) (k : Nat)
    (client : Option (ControllerClient R)) (j : Nat) :
    (s.withClient k client).clients j = if j = k then client else s.clients j := by
  rw [ControllerSession.withClient]
  exact Function.update_apply ..

/-- A client may be replaced by one of which the same is known. -/
theorem Sound.withClient (h : s.Sound m initial) {k : Nat} (hk : k < s.connected)
    {client : Option (ControllerClient R)}
    (hclient : ∀ c, client = some c → c.Sound m s.containers k (s.appliedBy k)) :
    (s.withClient k client).Sound m initial := by
  refine ⟨fun j c hj ↦ ?_, h.containers, h.later, h.memory, h.failed⟩
  rw [clients_withClient] at hj
  split at hj
  · next heq =>
    subst heq
    exact ⟨hclient c hj, hk⟩
  · exact h.clients j c hj

theorem Sound.connect (h : s.Sound m initial) :
    Sound m initial { s.withClient s.connected (some ⟨[], [], [], []⟩) with
      connected := s.connected + 1 } := by
  refine ⟨fun j c hj ↦ ?_, h.containers, fun k hk ↦ h.later k (Nat.le_of_succ_le hk), h.memory,
    h.failed⟩
  replace hj := (clients_withClient ..).symm.trans hj
  split at hj
  · next heq =>
    subst heq
    obtain rfl := Option.some.inj hj
    have hnone : s.appliedBy s.connected = [] := h.later _ (Nat.le_refl _)
    have hsent : [] = s.appliedBy s.connected ++ m.texts.arriveAll [] := by
      rw [hnone]
      rfl
    exact ⟨⟨⟨[], .nil, hsent⟩, (fun _ hr ↦ by cases hr), (fun _ hc ↦ by cases hc)⟩,
      Nat.lt_succ_self _⟩
  · obtain ⟨hsound, hlt⟩ := h.clients j c hj
    exact ⟨hsound, Nat.lt_succ_of_lt hlt⟩

/-- A client asks for a controller. -/
theorem Sound.getController (h : s.Sound m initial) {k : Nat} {client : ControllerClient R}
    (hclient : s.clients k = some client) {name : StdString} (hname : Solid name) :
    (s.withClient k (some { client with
      requests := client.requests ++ [getCtrlCalls name] })).Sound m initial := by
  obtain ⟨hsound, hk⟩ := h.clients k client hclient
  refine h.withClient hk fun c hc ↦ ?_
  obtain rfl := Option.some.inj hc
  obtain ⟨pending, hcarries, hsent⟩ := hsound.carried
  have hmore := hcarries.append (.get hname .nil)
  rw [List.append_nil] at hmore
  exact ⟨⟨pending, hmore, hsent⟩, hsound.replied, hsound.held⟩

/-- A client sets a controller that it holds. -/
theorem Sound.setValue (h : s.Sound m initial) {k : Nat} {client : ControllerClient R}
    (hclient : s.clients k = some client) {n : Nat} {c : RIController R}
    (hc : client.controllers[n]? = some c) {type : ControllerType} {value : ControllerValue R}
    (htype : ricCase c.ctType = some type) (hsuits : type.Suits value) :
    (s.withClient k (some { client with
      requests := client.requests ++ [(c.setValue m.texts value).2]
      controllers := client.controllers.set n (c.store value)
      sent := client.sent ++ [(c.name, value)] })).Sound m initial := by
  obtain ⟨hsound, hk⟩ := h.clients k client hclient
  have hbound : m.Bound s.containers k c.ctrlId c.name c.ctType :=
    hsound.held c (List.mem_of_getElem? hc)
  have hric : c.ctType = type.ricType := by
    obtain ⟨_, ctrl, _, _, _, hctrl⟩ := hbound
    rw [hctrl, ricCase_ricType] at htype
    rw [hctrl, Option.some.inj htype]
  refine h.withClient hk fun c' hc' ↦ ?_
  obtain rfl := Option.some.inj hc'
  obtain ⟨pending, hcarries, hsent⟩ := hsound.carried
  refine ⟨⟨pending ++ [(c.name, value)], hcarries.append (.set (hric ▸ hbound) hsuits .nil), ?_⟩,
    hsound.replied, fun d hd ↦ ?_⟩
  · rw [RealTexts.arriveAll, RealTexts.arriveAll, List.map_append, List.map_append,
      ← List.append_assoc]
    exact congrArg (· ++ _) hsent
  · rcases List.mem_or_eq_of_mem_set hd with hd | rfl
    · exact hsound.held d hd
    · cases value <;> exact hbound

/-! ### The server takes a request -/

/-- What is known after a client has been given a controller. -/
structure Fetched (m : RemoteMachine R) (alive : Nat → Bool)
    (containers containers' : ClientContainers) (k : Nat) (r : RIController R)
    (name : StdString) : Prop where
  bound : m.Bound containers' k r.ctrlId name r.ctType
  kept : ∀ ctrlId name ctType, m.Bound containers k ctrlId name ctType →
    m.Bound containers' k ctrlId name ctType
  others : ∀ j, j ≠ k → alive j = true → containers' j = containers j
  sound : ∀ j sscc, containers' j = some sscc → sscc.Sound

theorem fetched_of_processGetCtrlMessage {alive : Nat → Bool} {memory : ControllerMemory R}
    {containers containers' : ClientContainers} {k : Nat} {name reply : StdString}
    (hsound : ∀ j sscc, containers j = some sscc → sscc.Sound)
    (hroom : ∀ sscc, containers k = some sscc → sscc.ids.totalAmount.toNat + 1 < 4294967296)
    (halive : alive k = true)
    (h : m.processGetCtrlMessage alive memory containers k name = some (reply, containers')) :
    ∃ ctrl r, m.find name = some ctrl ∧ reply = r.getSerializedController m.texts ∧
      RIController.Describes m.reals memory ctrl (m.description ctrl.name) r ∧
      Fetched m alive containers containers' k r name := by
  obtain ⟨ctrl, hfind, h⟩ := Option.bind_eq_some_iff.mp h
  obtain ⟨r, hr, h⟩ := Option.bind_eq_some_iff.mp h
  obtain ⟨rfl, rfl⟩ := Prod.mk.inj (Option.some.inj h)
  obtain ⟨hid, hdescribes⟩ := RIController.describes_of_ofController hr
  let sscc := (containers k).getD .new
  have hsscc : sscc.Sound ∧ sscc.ids.totalAmount.toNat + 1 < 4294967296 := by
    show ((containers k).getD .new).Sound ∧
      ((containers k).getD .new).ids.totalAmount.toNat + 1 < 4294967296
    cases hk : containers k with
    | none => exact ⟨ServerSideControllerContainer.sound_new, by decide⟩
    | some sscc => exact ⟨hsound k sscc hk, hroom sscc hk⟩
  obtain ⟨hold, hnew⟩ := hsscc.1.register hsscc.2 ctrl
  have hk' : cleanupStrayControllers alive
      (Function.update containers k (some (sscc.register ctrl).2)) k =
        some (sscc.register ctrl).2 := by
    rw [cleanupStrayControllers, if_pos halive, Function.update_self]
  refine ⟨ctrl, r, hfind, rfl, hdescribes, ?_, ?_, ?_, ?_⟩
  · refine ⟨(sscc.register ctrl).2, ctrl, hk', ?_, hfind, hdescribes.type⟩
    rw [hid]
    exact Function.update_self ..
  · rintro ctrlId name' ctType ⟨sscc', ctrl', hsscc', hctrl', hrest⟩
    have heq : sscc = sscc' := by
      show (containers k).getD .new = sscc'
      rw [hsscc', Option.getD_some]
    rw [← heq] at hctrl'
    refine ⟨(sscc.register ctrl).2, ctrl', hk', (Function.update_of_ne ?_ ..).trans hctrl', hrest⟩
    rintro rfl
    exact Option.some_ne_none ctrl' (hctrl'.symm.trans hold)
  · intro j hj hjalive
    rw [cleanupStrayControllers, if_pos hjalive, Function.update_of_ne hj]
  · intro j sscc' hj
    rw [cleanupStrayControllers] at hj
    split at hj
    · by_cases heq : j = k
      · rw [heq, Function.update_self] at hj
        exact Option.some.inj hj ▸ hnew
      · rw [Function.update_of_ne heq] at hj
        exact hsound j sscc' hj
    · cases hj

/-- The server has given a controller to a client. -/
theorem Sound.fetched (h : s.Sound m initial) {k : Nat} {client : ControllerClient R}
    (hclient : s.clients k = some client) {name : StdString} (hname : Solid name)
    {requests : List (List (StdString × StdString))}
    {pending : List (StdString × ControllerValue R)}
    (hcarries : Carries m s.containers k requests pending)
    (hsent : m.texts.arriveAll client.sent = s.appliedBy k ++ m.texts.arriveAll pending)
    {containers : ClientContainers} {ctrl : Controller} {r : RIController R}
    (hfind : m.find name = some ctrl) (hr : r.name = ctrl.name)
    (hfetched : Fetched m s.alive s.containers containers k r name) :
    Sound m initial { s.withClient k (some { client with
        requests
        replies := client.replies ++ [r.getSerializedController m.texts] }) with containers } := by
  refine ⟨fun j c hj ↦ ?_, hfetched.sound, h.later, h.memory, h.failed⟩
  replace hj := (clients_withClient ..).symm.trans hj
  split at hj
  · next heq =>
    subst heq
    obtain rfl := Option.some.inj hj
    obtain ⟨hsound, hk⟩ := h.clients j client hclient
    have hkept := hsound.mono hfetched.kept
    refine ⟨⟨⟨pending, hcarries.mono hfetched.kept, hsent⟩, fun reply hreply ↦ ?_, hkept.held⟩, hk⟩
    rcases List.mem_append.mp hreply with hreply | hreply
    · exact hkept.replied reply hreply
    · have hnamed : r.name = name := hr.trans (m.name_of_find hfind)
      exact ⟨r, List.mem_singleton.mp hreply, hnamed.symm ▸ hname, hnamed.symm ▸ hfetched.bound⟩
  · next hne =>
    obtain ⟨hsound, hk⟩ := h.clients j c hj
    have hsame : containers j = s.containers j :=
      hfetched.others j hne (by rw [alive, hj, Option.isSome_some])
    exact ⟨hsound.mono fun _ _ _ hbound ↦ hbound.congr hsame, hk⟩

theorem appliedBy_append (s : ControllerSession R) (k : Nat) (name : StdString)
    (value : ControllerValue R) (j : Nat) :
    (s.applied ++ [(k, name, value)]).filterMap
        (fun entry ↦ if entry.1 = j then some entry.2 else none) =
      s.appliedBy j ++ if j = k then [(name, value)] else [] := by
  rw [List.filterMap_append, appliedBy]
  refine congrArg _ ?_
  by_cases heq : j = k
  · simp [heq]
  · simp [heq, Ne.symm heq]

/-- The server has set a controller for a client. -/
theorem Sound.applied (h : s.Sound m initial) {k : Nat} {client : ControllerClient R}
    (hclient : s.clients k = some client) {requests : List (List (StdString × StdString))}
    {pending : List (StdString × ControllerValue R)} {name : StdString} {value : ControllerValue R}
    (hcarries : Carries m s.containers k requests pending)
    (hsent : m.texts.arriveAll client.sent =
      s.appliedBy k ++ m.texts.arriveAll ((name, value) :: pending))
    {ctrl : Controller} (hfind : m.find name = some ctrl) :
    Sound m initial { s.withClient k (some { client with requests }) with
      memory := ctrl.internalSetValue m.reals (m.texts.arrive value) s.memory
      applied := s.applied ++ [(k, ctrl.name, m.texts.arrive value)] } := by
  obtain ⟨hsound, hk⟩ := h.clients k client hclient
  have hname : ctrl.name = name := m.name_of_find hfind
  refine ⟨fun j c hj ↦ ?_, h.containers, fun j hj ↦ ?_, ?_, h.failed⟩
  · replace hj := (clients_withClient ..).symm.trans hj
    show c.Sound m s.containers j ((s.applied ++ [_]).filterMap _) ∧ j < s.connected
    rw [appliedBy_append]
    split at hj
    · next heq =>
      subst heq
      obtain rfl := Option.some.inj hj
      refine ⟨⟨⟨pending, hcarries, ?_⟩, hsound.replied, hsound.held⟩, hk⟩
      rw [if_pos rfl, List.append_assoc, hname]
      exact hsent
    · next hne =>
      rw [if_neg hne, List.append_nil]
      exact h.clients j c hj
  · show (s.applied ++ [_]).filterMap _ = []
    have hne : j ≠ k := (Nat.lt_of_lt_of_le hk hj).ne'
    rw [appliedBy_append, if_neg hne, List.append_nil]
    exact h.later j hj
  · show ctrl.internalSetValue m.reals _ s.memory = _
    rw [m.replay_append _ _ (by rw [hname]; exact hfind), h.memory]

theorem Sound.serve (h : s.Sound m initial) {k : Nat}
    (hroom : ∀ sscc, s.containers k = some sscc → sscc.ids.totalAmount.toNat + 1 < 4294967296)
    (hs : s.serve m k = some s') : s'.Sound m initial := by
  obtain ⟨client, hclient, hs⟩ := Option.bind_eq_some_iff.mp hs
  obtain ⟨hsound, hk⟩ := h.clients k client hclient
  obtain ⟨pending, hcarries, hsent⟩ := hsound.carried
  generalize client.requests = requests at hs hcarries
  cases hcarries with
  | nil => cases hs
  | get hname hrest =>
    obtain ⟨outcome, houtcome, hs⟩ := Option.bind_eq_some_iff.mp hs
    rw [RemoteMachine.processMessageServer_get hname] at houtcome
    obtain ⟨⟨reply, containers⟩, hreply, rfl⟩ := Option.map_eq_some_iff.mp houtcome
    obtain rfl := Option.some.inj hs
    obtain ⟨ctrl, r, hfind, rfl, hdescribes, hfetched⟩ := fetched_of_processGetCtrlMessage
      h.containers hroom (by rw [alive, hclient, Option.isSome_some]) hreply
    exact h.fetched hclient hname hrest hsent hfind hdescribes.name hfetched
  | set hbound hsuits hrest =>
    obtain ⟨outcome, houtcome, hs⟩ := Option.bind_eq_some_iff.mp hs
    obtain ⟨ctrl, hfind, hset⟩ := RemoteMachine.processMessageServer_set hbound hsuits
    obtain rfl := Option.some.inj (hset.symm.trans houtcome)
    obtain rfl := Option.some.inj hs
    exact h.applied hclient hrest hsent hfind

/-- The client takes a reply. -/
theorem Sound.receive (h : s.Sound m initial) {k : Nat} (hs : s.receive m k = some s') :
    s'.Sound m initial := by
  obtain ⟨client, hclient, hs⟩ := Option.bind_eq_some_iff.mp hs
  obtain ⟨hsound, hk⟩ := h.clients k client hclient
  cases hreplies : client.replies with
  | nil =>
    rw [hreplies] at hs
    cases hs
  | cons reply replies =>
    rw [hreplies] at hs
    have hreplied := hsound.replied
    rw [hreplies, List.forall_mem_cons] at hreplied
    obtain ⟨⟨r, rfl, hname, hbound⟩, hrest⟩ := hreplied
    dsimp only at hs
    rw [RIController.transmitted_getSerializedController] at hs
    split at hs
    · obtain rfl := Option.some.inj hs
      exact h.withClient hk fun c hc ↦ by cases hc
    · next c hread =>
      obtain rfl := Option.some.inj hs
      obtain ⟨hid, hname', -, htype⟩ := RIController.headed_of_ofSerialized hread
      rw [transmitted_of_solid hname] at hname'
      refine h.withClient hk fun client' hclient' ↦ ?_
      obtain rfl := Option.some.inj hclient'
      refine ⟨hsound.carried, hrest, fun d hd ↦ ?_⟩
      rcases List.mem_append.mp hd with hd | hd
      · exact hsound.held d hd
      · rw [List.mem_singleton.mp hd, hid, hname', htype]
        exact hbound

theorem Sound.step (h : s.Sound m initial) (event : ControllerEvent R)
    (hpermits : s.Permits m event) (hs : s.step m event = some ((), s')) : s'.Sound m initial := by
  cases event with
  | connect =>
    obtain ⟨-, rfl⟩ := Prod.mk.inj (Option.some.inj hs)
    exact h.connect
  | getController k name =>
    obtain ⟨client, hclient, hs⟩ := Option.bind_eq_some_iff.mp hs
    obtain ⟨-, rfl⟩ := Prod.mk.inj (Option.some.inj hs)
    exact h.getController hclient hpermits.2.1
  | setValue k n value =>
    obtain ⟨client, hclient, hs⟩ := Option.bind_eq_some_iff.mp hs
    obtain ⟨c, hc, hs⟩ := Option.bind_eq_some_iff.mp hs
    obtain ⟨-, rfl⟩ := Prod.mk.inj (Option.some.inj hs)
    obtain ⟨type, htype, hsuits⟩ := hpermits.2 client hclient c hc
    exact h.setValue hclient hc htype hsuits
  | serve k =>
    obtain ⟨t, ht, hs⟩ := Option.bind_eq_some_iff.mp hs
    obtain ⟨-, rfl⟩ := Prod.mk.inj (Option.some.inj hs)
    exact h.serve hpermits ht
  | receive k =>
    obtain ⟨t, ht, hs⟩ := Option.bind_eq_some_iff.mp hs
    obtain ⟨-, rfl⟩ := Prod.mk.inj (Option.some.inj hs)
    exact h.receive ht
  | disconnect k =>
    obtain ⟨-, rfl⟩ := Prod.mk.inj (Option.some.inj hs)
    refine ⟨fun j c hj ↦ ?_, h.containers, h.later, h.memory, h.failed⟩
    rw [clients_withClient] at hj
    split at hj
    · cases hj
    · exact h.clients j c hj

end ControllerSession

end Vuknob
