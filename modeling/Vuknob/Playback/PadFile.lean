import Mathlib.Data.List.FinRange
import Vuknob.Base.Xml
import Vuknob.Library.SortedLinks
import Vuknob.Playback.MidiTrack
import Vuknob.Playback.PadOrder

/-!
# Saving and loading the pad

`get_pad_xml` and `load_pad_from_xml`, `src_jni/engine_code/pad.cc:1219–1297`, with what they write
and read for configurations, motions and sessions. A project file knows all of these as numbers, and
so they are numbers here, also where a pad that is played only has the cases it distinguishes.
-/

namespace Vuknob

open Library

/-- `MACHINE_PROJECT_INTERFACE_LEVEL`, `src_jni/machine.hh:36`. -/
def machineProjectInterfaceLevel : Int := 8

/-- The members of `Pad::PadConfiguration` that are saved, `src_jni/engine_code/pad.hh:66–72`. -/
structure SavedConfiguration where
  arpDirection : Int
  chordMode : Int
  scale : Int
  octave : Int
  arpeggioPattern : Int
  padControllerCoarse : Int × Int
  padControllerFine : Int × Int
  deriving DecidableEq

namespace SavedConfiguration

/-- `get_configuration_xml`, `src_jni/engine_code/pad.cc:408–420`. -/
def getConfigurationXml (c : SavedConfiguration) : XmlElement :=
  .mk "c"
    [("m", c.arpDirection), ("c", c.chordMode), ("s", c.scale), ("o", c.octave),
      ("arp", c.arpeggioPattern), ("cc", c.padControllerCoarse.1), ("cf", c.padControllerFine.1),
      ("czc", c.padControllerCoarse.2), ("czf", c.padControllerFine.2)] []

/-- `load_configuration_from_xml`, `src_jni/engine_code/pad.cc:422–445`. -/
def loadConfigurationFromXml (padXml : KXMLDoc) (config : SavedConfiguration) :
    SavedConfiguration :=
  let c := (padXml.child "c").getD padXml
  { arpDirection := c.getNumber "m" 0
    chordMode := c.getNumber "c" 0
    scale := c.getNumber "s" config.scale
    octave := c.getNumber "o" config.octave
    arpeggioPattern := c.getNumber "arp" config.arpeggioPattern
    padControllerCoarse := (c.getNumber "cc" (-1), c.getNumber "czc" (-1))
    padControllerFine := (c.getNumber "cf" (-1), c.getNumber "czf" (-1)) }

end SavedConfiguration

/-- One entry of each of the vectors `x`, `y`, `z` and `t`. -/
structure SavedPosition where
  x : Int
  y : Int
  z : Int
  t : Int
  deriving DecidableEq

namespace SavedPosition

/-- `src_jni/engine_code/pad.cc:460`. -/
def getXml (p : SavedPosition) : XmlElement :=
  .mk "d" [("x", p.x), ("y", p.y), ("z", p.z), ("t", p.t)] []

/-- A coordinate of 12 bits as one of 14 bits, `src_jni/engine_code/pad.cc:504–506`. -/
def widened (value : Int) : Int :=
  let bits := BitVec.ofInt 32 value
  (((bits &&& 0xfe0) <<< 2) ||| (bits &&& 0x1f)).toInt

/-- One round of the loop in the constructor, `src_jni/engine_code/pad.cc:549–572`. -/
def fromXml (level : Int) (dxml : KXMLDoc) : SavedPosition :=
  let x := dxml.getNumber "x" (-1)
  let y := dxml.getNumber "y" (-1)
  let t := dxml.getNumber "t" (-1)
  if level < 8 then ⟨widened x, widened y, 0, t⟩ else ⟨x, y, dxml.getNumber "z" 0, t⟩

end SavedPosition

/-- The members of `Pad::PadMotion` that are saved, `src_jni/engine_code/pad.hh:168–224`. -/
structure SavedMotion extends SavedConfiguration where
  startTick : Int
  positions : List SavedPosition
  deriving DecidableEq

namespace SavedMotion

/-- `get_padmotion_xml`, `src_jni/engine_code/pad.cc:453–464`. -/
def getPadmotionXml (finger : PadFingerId) (m : SavedMotion) : XmlElement :=
  .mk "m" [("f", finger.val), ("start", m.startTick)]
    (m.getConfigurationXml :: m.positions.map SavedPosition.getXml)

/-- The constructor for level 5 and later, `src_jni/engine_code/pad.cc:531–574`. -/
def fromXml (level : Int) (parentConfig : SavedConfiguration) (padXml : KXMLDoc) : SavedMotion :=
  { parentConfig.loadConfigurationFromXml padXml with
    startTick := padXml.getNumber "start" (-1)
    positions := ((padXml.child "d").getD []).map fun d ↦ .fromXml level [d] }

/-- The ticks of a time that is saved at level 4, `src_jni/engine_code/pad.cc:508–519`. -/
def oldTicks (absTime : Int) : Int := padTimeLine absTime * machineTicksPerLine + absTime % 16

/-- One round of the loop in the constructor for level 4, `src_jni/engine_code/pad.cc:496–528`;
there is no position where the time has wrapped around. -/
def oldPosition (firstTick : Int) (dxml : KXMLDoc) : Option SavedPosition :=
  let x := SavedPosition.widened (dxml.getNumber "x" (-1))
  let y := SavedPosition.widened (dxml.getNumber "y" (-1))
  let t := (oldTicks (dxml.getNumber "t" (-1)) - firstTick).bmod (2 ^ 32)
  if 0 ≤ t then some ⟨x, y, 0, t⟩ else none

/-- The constructor for level 4, `src_jni/engine_code/pad.cc:478–529`, with `start_offset_return`,
which is not set where there is no position. -/
def fromOldXml (parentConfig : SavedConfiguration) (padXml : KXMLDoc) : Option Int × SavedMotion :=
  let ds := (padXml.child "d").getD []
  let first := ds.head?.map fun d ↦ KXMLDoc.getNumber [d] "t" (-1)
  let firstTick := (first.map oldTicks).getD 0
  (first,
    { parentConfig.loadConfigurationFromXml padXml with
      startTick := 0
      positions := ds.filterMap fun d ↦ oldPosition firstTick [d] })

/-- `record_motion`, `src_jni/engine_code/pad.cc:818–864`. -/
def recordMotion (target : SavedMotion) (recorded : List SavedMotion) : List SavedMotion :=
  recorded.orderedInsert (fun target top ↦ target.startTick < top.startTick) target

end SavedMotion

/-- The members of `Pad::PadSession` that are saved, `src_jni/engine_code/pad.hh:261–294`. -/
structure SavedSession where
  startAtTick : Int
  finger : PadFingerId → List SavedMotion

namespace SavedSession

/-- `get_session_xml`, `src_jni/engine_code/pad.cc:1113–1124`. -/
def getSessionXml (s : SavedSession) : XmlElement :=
  .mk "s" [("start", s.startAtTick)]
    ((List.finRange 5).flatMap fun f ↦ (s.finger f).map (SavedMotion.getPadmotionXml f))

/-- Record a motion for a finger. Writing to a finger that is not there is undefined. -/
def record (f : Int) (m : SavedMotion) (s : SavedSession) : Option SavedSession :=
  if h : 0 ≤ f ∧ f < 5 then
    let f : PadFingerId := ⟨f.toNat, by omega⟩
    some { s with finger := Function.update s.finger f (m.recordMotion (s.finger f)) }
  else none

/-- One round of the loop in the constructor, `src_jni/engine_code/pad.cc:1030–1041`. -/
def readMotion (level : Int) (config : SavedConfiguration) (s : SavedSession) (m : XmlElement) :
    Option SavedSession :=
  s.record (KXMLDoc.getNumber [m] "f" 0) (.fromXml level config [m])

/-- The constructor that reads a session, `src_jni/engine_code/pad.cc:1019–1044`. It throws, and
there is no session, where the document has no motion. -/
def fromXml (level : Int) (config : SavedConfiguration) (psXml : KXMLDoc) :
    Option (Option SavedSession) :=
  match psXml.child "m" with
  | none => some none
  | some ms =>
    (ms.foldlM (readMotion level config) ⟨psXml.getNumber "start" 0, fun _ ↦ []⟩).map some

/-- There is a motion in the session. -/
def hasMotion (s : SavedSession) : Bool := (List.finRange 5).any fun f ↦ !(s.finger f).isEmpty

/-- The motions of every finger are in the order of their start. -/
def Sorted (s : SavedSession) : Prop :=
  ∀ f, (s.finger f).Pairwise fun a b ↦ a.startTick ≤ b.startTick

end SavedSession

/-- The members of `Pad` that are saved: the configuration, and the sessions without the one that
is being recorded. -/
structure SavedPad where
  config : SavedConfiguration
  sessions : List SavedSession

namespace SavedPad

/-- `Pad::Pad`, `src_jni/engine_code/pad.cc:1132–1139`. -/
def new : SavedPad := ⟨⟨0, 0, 0, 4, 0, (-1, -1), (-1, -1)⟩, []⟩

/-- `get_pad_xml`, `src_jni/engine_code/pad.cc:1219–1231`. -/
def getPadXml (p : SavedPad) : XmlElement :=
  .mk "pad" [] (p.config.getConfigurationXml :: p.sessions.map SavedSession.getSessionXml)

/-- A motion of a project at level 4, `src_jni/engine_code/pad.cc:1252–1262`. Reading an offset that
is not set is undefined. -/
def readOldMotion (p : SavedPad) (m : XmlElement) : Option SavedPad := do
  let (offset, motion) := SavedMotion.fromOldXml p.config [m]
  let session : SavedSession := ⟨← offset, fun _ ↦ []⟩
  let session ← session.record (KXMLDoc.getNumber [m] "f" 0) motion
  some { p with sessions := p.sessions ++ [session] }

/-- A session of a project, `src_jni/engine_code/pad.cc:1274–1288`. -/
def readSession (level : Int) (p : SavedPad) (s : XmlElement) : Option SavedPad :=
  (SavedSession.fromXml level p.config [s]).map fun read ↦
    { p with sessions := p.sessions ++ read.toList }

/-- `load_pad_from_xml`, `src_jni/engine_code/pad.cc:1233–1297`. An exception ends it, with what has
been read by then. -/
def loadPadFromXml (level : Int) (pXml : KXMLDoc) (p : SavedPad) : Option SavedPad :=
  match pXml.child "pad" with
  | none => some p
  | some padXml =>
    let p := { p with config := p.config.loadConfigurationFromXml padXml }
    if level < 5 then ((padXml.child "m").getD []).foldlM readOldMotion p
    else ((padXml.child "s").getD []).foldlM (readSession level) p

end SavedPad

/-! ## Pads that are played -/

/-- The number of a direction, `src_jni/engine_code/pad.hh:50–55`. -/
def ArpeggioDirection.number : ArpeggioDirection → Int
  | .arpOff => 0
  | .arpForward => 1
  | .arpReverse => 2
  | .arpPingpong => 3

/-- The number of a chord mode, `src_jni/engine_code/pad.hh:57–61`. -/
def ChordMode.number : ChordMode → Int
  | .chordOff => 0
  | .chordTriad => 1
  | .chordQuad => 2

/-- The numbers of a configuration. All negative numbers of patterns play alike, and -1 stands for
them. -/
def PadConfiguration.saved (c : PadConfiguration) : SavedConfiguration where
  arpDirection := c.arpDirection.number
  chordMode := c.chordMode.number
  scale := c.scale
  octave := c.octave
  arpeggioPattern := c.arpeggioPattern.elim (-1) fun pattern ↦ pattern.val
  padControllerCoarse := c.padControllerCoarse
  padControllerFine := c.padControllerFine

/-- The numbers of a motion. -/
def PadMotion.saved (m : PadMotion) : SavedMotion where
  toSavedConfiguration := m.toPadConfiguration.saved
  startTick := m.startTick
  positions := m.positions.map fun p ↦ ⟨p.x.toNat, p.y.toNat, p.z.toNat, p.t⟩

/-- The motions that a finger has recorded. -/
def PadFinger.saved (F : PadFinger) : List SavedMotion := F.recorded.map fun k ↦ (F.motions k).saved

/-- What is saved of a session. -/
def PadSession.saved (s : PadSession) : SavedSession := ⟨s.startAtTick, fun f ↦ (s.finger f).saved⟩

/-- What is saved of a pad. -/
def Pad.saved (p : Pad) : SavedPad := ⟨p.config.saved, p.sessions.map PadSession.saved⟩

/-- Motions are put among the saved ones where they are put among those that are played. -/
theorem PadFinger.map_recordMotion (motions : Nat → PadMotion) (k : Nat) (l : List Nat) :
    (recordMotion motions k l).map (fun k ↦ (motions k).saved) =
      (motions k).saved.recordMotion (l.map fun k ↦ (motions k).saved) := by
  rw [recordMotion_eq, SavedMotion.recordMotion]
  apply List.map_orderedInsert
  · exact fun _ _ ↦ decide_eq_true_iff
  · exact fun _ _ ↦ decide_eq_true_iff

/-- The fingers of a session that is played are in order if what is saved is. -/
theorem PadSession.sorted_saved_iff (s : PadSession) :
    s.saved.Sorted ↔ ∀ f, (s.finger f).Ordered := by
  refine forall_congr' fun f ↦ ?_
  exact List.pairwise_map

/-! ## What has been written is read -/

/-- What goes before no element goes behind all of them. -/
theorem SavedMotion.recordMotion_last {target : SavedMotion} {recorded : List SavedMotion}
    (h : ∀ m ∈ recorded, m.startTick ≤ target.startTick) :
    target.recordMotion recorded = recorded ++ [target] :=
  orderedInsert_last fun m hm ↦ Int.not_lt.mpr (h m hm)

/-- A configuration, and behind it elements that have one other tag. -/
theorem tagged_behind_configuration (c : SavedConfiguration) (parent tag : String)
    (attributes : List (String × Int)) (elements : List XmlElement) (htag : "c" ≠ tag)
    (h : ∀ e ∈ elements, e.tag = tag) :
    let e := XmlElement.mk parent attributes (c.getConfigurationXml :: elements)
    e.tagged "c" = [c.getConfigurationXml] ∧ e.tagged tag = elements := by
  have hc : ¬ decide (c.getConfigurationXml.tag = tag) = true := fun hc ↦
    htag (of_decide_eq_true hc)
  constructor
  · show (c.getConfigurationXml :: elements).filter _ = _
    rw [List.filter_cons_of_pos rfl, List.filter_eq_nil_iff.mpr fun e he ↦ ?_]
    rw [h e he, decide_eq_true_iff]
    exact Ne.symm htag
  · show (c.getConfigurationXml :: elements).filter _ = _
    rw [List.filter_cons, if_neg hc]
    exact List.filter_eq_self.mpr fun e he ↦ decide_eq_true (h e he)

theorem SavedConfiguration.load_get (c config : SavedConfiguration) {e : XmlElement}
    {others : List XmlElement} (he : e.tagged "c" = [c.getConfigurationXml]) :
    config.loadConfigurationFromXml (e :: others) = c := by
  have hchild : KXMLDoc.child (e :: others) "c" = some [c.getConfigurationXml] := by
    rw [KXMLDoc.child, he]
    rfl
  rw [loadConfigurationFromXml, hchild]
  rfl

@[simp]
theorem SavedPosition.fromXml_getXml (p : SavedPosition) :
    fromXml machineProjectInterfaceLevel [p.getXml] = p := rfl

/-- A motion is read as it was, whatever the configuration of the pad. -/
theorem SavedMotion.fromXml_getPadmotionXml (config : SavedConfiguration) (f : PadFingerId)
    (m : SavedMotion) : fromXml machineProjectInterfaceLevel config [m.getPadmotionXml f] = m := by
  have htags : ∀ e ∈ m.positions.map SavedPosition.getXml, e.tag = "d" := by
    intro e he
    obtain ⟨p, -, rfl⟩ := List.mem_map.mp he
    rfl
  obtain ⟨hc, hd⟩ : (m.getPadmotionXml f).tagged "c" = [m.getConfigurationXml] ∧
      (m.getPadmotionXml f).tagged "d" = m.positions.map SavedPosition.getXml :=
    tagged_behind_configuration m.toSavedConfiguration "m" "d" _ _ (by decide) htags
  rw [fromXml, SavedConfiguration.load_get m.toSavedConfiguration config hc, KXMLDoc.getD_child, hd,
    List.map_map, List.map_congr_left (fun p _ ↦ p.fromXml_getXml), List.map_id']
  rfl

namespace SavedSession

/-- The motions of some fingers, recorded one after the other, where those of every finger come in
the order of their start. -/
theorem record_all (l : List (PadFingerId × SavedMotion)) (s : SavedSession)
    (hsorted : ∀ f, (s.finger f ++ (l.filter fun e ↦ e.1 = f).map Prod.snd).Pairwise
      fun a b ↦ a.startTick ≤ b.startTick) :
    l.foldlM (fun s e ↦ s.record e.1.val e.2) s =
      some { s with finger := fun f ↦ s.finger f ++ (l.filter fun e ↦ e.1 = f).map Prod.snd } := by
  induction l generalizing s with
  | nil => simp
  | cons e l ih =>
    obtain ⟨f, m⟩ := e
    have hlast : m.recordMotion (s.finger f) = s.finger f ++ [m] := by
      refine SavedMotion.recordMotion_last fun a ha ↦ ?_
      refine (List.pairwise_append.mp (hsorted f)).2.2 a ha m ?_
      refine List.mem_map.mpr ⟨(f, m), ?_, rfl⟩
      exact List.mem_filter.mpr ⟨List.mem_cons_self, decide_eq_true rfl⟩
    have hrecord : s.record f.val m =
        some { s with finger := Function.update s.finger f (s.finger f ++ [m]) } := by
      rw [record, dif_pos (by omega)]
      simp only [Int.toNat_natCast, hlast]
    -- the motion is behind those of its finger, and before those that follow
    have hfinger : ∀ g, Function.update s.finger f (s.finger f ++ [m]) g ++
        (l.filter fun e ↦ e.1 = g).map Prod.snd =
          s.finger g ++ (((f, m) :: l).filter fun e ↦ e.1 = g).map Prod.snd := by
      intro g
      by_cases hg : f = g
      · subst hg
        rw [Function.update_self, List.filter_cons, if_pos (decide_eq_true rfl), List.append_assoc]
        rfl
      · rw [Function.update_of_ne (Ne.symm hg), List.filter_cons, if_neg (by simpa using hg)]
    rw [List.foldlM_cons, hrecord, Option.bind_eq_bind, Option.bind_some, ih]
    · simp only [hfinger]
    · intro g
      rw [hfinger]
      exact hsorted g

/-- The motions of a session with their fingers, as they are written. -/
def motions (s : SavedSession) : List (PadFingerId × SavedMotion) :=
  (List.finRange 5).flatMap fun f ↦ (s.finger f).map fun m ↦ (f, m)

theorem filter_motions (s : SavedSession) (g : PadFingerId) :
    (s.motions.filter fun e ↦ e.1 = g).map Prod.snd = s.finger g := by
  have hfinger : ∀ f, ((s.finger f).map fun m ↦ (f, m)).filter (fun e ↦ e.1 = g) =
      if f = g then (s.finger g).map fun m ↦ (g, m) else [] := by
    intro f
    split
    · next h =>
      subst h
      exact List.filter_eq_self.mpr (by simp)
    · next h =>
      exact List.filter_eq_nil_iff.mpr (by simpa using fun _ _ ↦ h)
  have hone : (List.finRange 5).flatMap
      (fun f ↦ if f = g then (s.finger g).map fun m ↦ (g, m) else []) =
        (s.finger g).map fun m ↦ (g, m) := by
    match g with
    | 0 | 1 | 2 | 3 | 4 => simp [List.finRange, List.ofFn_succ]
  rw [motions, List.filter_flatMap]
  simp only [hfinger, hone, List.map_map]
  exact List.map_id' _

theorem hasMotion_eq (s : SavedSession) : s.hasMotion = !s.motions.isEmpty := by
  rw [hasMotion, motions, Bool.eq_iff_iff]
  simp

theorem getSessionXml_eq (s : SavedSession) : s.getSessionXml =
    .mk "s" [("start", s.startAtTick)] (s.motions.map fun e ↦ e.2.getPadmotionXml e.1) := by
  rw [getSessionXml, motions, List.map_flatMap]
  simp only [List.map_map, Function.comp_def]

/-- A session without motions is not read; every other one is read as it was. -/
theorem fromXml_getSessionXml {s : SavedSession} (hsorted : s.Sorted)
    (config : SavedConfiguration) : fromXml machineProjectInterfaceLevel config [s.getSessionXml] =
      some (if s.hasMotion then some s else none) := by
  have htagged : s.getSessionXml.tagged "m" = s.motions.map fun e ↦ e.2.getPadmotionXml e.1 := by
    rw [getSessionXml_eq]
    refine List.filter_eq_self.mpr fun e he ↦ ?_
    obtain ⟨_, -, rfl⟩ := List.mem_map.mp he
    rfl
  have hread : ∀ (r : SavedSession) (e : PadFingerId × SavedMotion),
      r.readMotion machineProjectInterfaceLevel config (e.2.getPadmotionXml e.1) =
        r.record e.1.val e.2 := by
    intro r e
    rw [readMotion, SavedMotion.fromXml_getPadmotionXml]
    rfl
  have hall := record_all s.motions ⟨s.startAtTick, fun _ ↦ []⟩ (by
    intro f
    rw [filter_motions]
    exact hsorted f)
  simp only [filter_motions, List.nil_append] at hall
  rw [fromXml, KXMLDoc.child, htagged, List.isEmpty_map]
  cases hempty : s.motions.isEmpty with
  | true => rw [if_pos rfl, hasMotion_eq, hempty]; rfl
  | false =>
    rw [if_neg Bool.false_ne_true, hasMotion_eq, hempty]
    show ((s.motions.map _).foldlM (readMotion _ config) ⟨s.startAtTick, fun _ ↦ []⟩).map some = _
    rw [List.foldlM_map]
    simp only [hread, hall]
    rfl

end SavedSession

namespace SavedPad

/-- Sessions are read one after the other, those without motions not at all. -/
theorem readSessions {sessions : List SavedSession} (hsorted : ∀ s ∈ sessions, s.Sorted)
    (p : SavedPad) :
    (sessions.map SavedSession.getSessionXml).foldlM (readSession machineProjectInterfaceLevel) p =
      some { p with sessions := p.sessions ++ sessions.filter SavedSession.hasMotion } := by
  induction sessions generalizing p with
  | nil => simp
  | cons s sessions ih =>
    have hread : p.readSession machineProjectInterfaceLevel s.getSessionXml =
        some { p with sessions := p.sessions ++ [s].filter SavedSession.hasMotion } := by
      rw [readSession, SavedSession.fromXml_getSessionXml (hsorted s List.mem_cons_self)]
      cases h : s.hasMotion <;> simp [h]
    rw [List.map_cons, List.foldlM_cons, hread, Option.bind_eq_bind, Option.bind_some,
      ih fun t ht ↦ hsorted t (List.mem_cons_of_mem s ht), List.append_assoc, ← List.filter_append]
    rfl

/-- What has been saved of a pad is what a new pad has once it is loaded, less the sessions that
have no motion. -/
theorem load_getPadXml (p : SavedPad) (hsorted : ∀ s ∈ p.sessions, s.Sorted) {doc : KXMLDoc}
    {others : List XmlElement} (hdoc : doc.child "pad" = some (p.getPadXml :: others)) :
    new.loadPadFromXml machineProjectInterfaceLevel doc =
      some { p with sessions := p.sessions.filter SavedSession.hasMotion } := by
  have htags : ∀ e ∈ p.sessions.map SavedSession.getSessionXml, e.tag = "s" := by
    intro e he
    obtain ⟨s, -, rfl⟩ := List.mem_map.mp he
    rfl
  obtain ⟨hc, hs⟩ : p.getPadXml.tagged "c" = [p.config.getConfigurationXml] ∧
      p.getPadXml.tagged "s" = p.sessions.map SavedSession.getSessionXml :=
    tagged_behind_configuration p.config "pad" "s" [] _ (by decide) htags
  rw [loadPadFromXml, hdoc]
  simp only [SavedConfiguration.load_get p.config new.config hc, KXMLDoc.getD_child, hs]
  rw [if_neg (by decide)]
  exact readSessions hsorted ⟨p.config, []⟩

/-- A session with a motion of the first finger, and one in which no finger has moved. -/
def twoSessions : SavedPad where
  config := ⟨1, 2, 3, -1, 7, (1024, -1), (-1, 70)⟩
  sessions :=
    [⟨32, Function.update (fun _ ↦ []) 0
        [⟨⟨0, 0, 0, 4, -1, (-1, -1), (-1, -1)⟩, 3, [⟨16383, 0, 5, 0⟩, ⟨0, 16383, 5, 9⟩]⟩]⟩,
      ⟨48, fun _ ↦ []⟩]

theorem load_getPadXml_twoSessions :
    new.loadPadFromXml machineProjectInterfaceLevel [.mk "machine" [] [twoSessions.getPadXml]] =
      some ⟨twoSessions.config, twoSessions.sessions.take 1⟩ := by
  have hsorted : ∀ s ∈ twoSessions.sessions, s.Sorted := by
    intro s hs f
    rcases List.mem_cons.mp hs with rfl | hs
    · by_cases hf : f = 0
      · subst hf
        exact List.pairwise_singleton ..
      · show List.Pairwise _ (Function.update (fun _ ↦ []) 0 _ f)
        rw [Function.update_of_ne hf]
        exact .nil
    · obtain rfl := List.mem_singleton.mp hs
      exact .nil
  exact load_getPadXml twoSessions hsorted rfl

end SavedPad

end Vuknob
