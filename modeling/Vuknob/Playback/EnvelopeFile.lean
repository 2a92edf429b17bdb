import Vuknob.Playback.EnvelopeEdits

/-!
# Envelopes in project files

`write_to_xml` and `read_from_xml`, `src_jni/engine_code/controller_envelope.cc:161–205`. A project
reads each of its envelopes into a new one, `src_jni/machine_sequencer.cc:1346–1352`. Reading takes
`-1` for an attribute that is missing, and leaves out the point it belongs to.
-/

namespace Vuknob

open Library

namespace ControllerEnvelope

/-- `write_to_xml`, `src_jni/engine_code/controller_envelope.cc:161–174`. -/
def writeToXml (e : ControllerEnvelope) (id : String) : EnvelopeXml where
  id := some id
  enabled := some (if e.enabled then "true" else "false")
  coarse := some e.controllerCoarse
  fine := some e.controllerFine
  points := e.controlPoint.nodes.map fun k ↦ (some k.key, some k.value)

/-- What `read_from_xml` returns, `src_jni/engine_code/controller_envelope.cc:177–178,204`; nothing
where it throws. -/
def returnedId (x : EnvelopeXml) : Option String :=
  match x.id, x.enabled with
  | some id, some _ => some id
  | _, _ => none

variable (e : ControllerEnvelope) (id : String) (t : Int) (nextC previousC : Option Nat)

/-- Of the points that have been written, those are read that are not taken for missing. -/
theorem xmlPoints_writeToXml :
    xmlPoints (e.writeToXml id) =
      e.controlPoint.entries.filter fun p ↦ !(p.1 = -1 || p.2 = -1) := by
  rw [xmlPoints, writeToXml, List.map_map, OrderedMap.entries]
  rfl

/-- `refresh_playback_data` leaves the public members alone. -/
theorem refreshPlaybackData_members :
    e.refreshPlaybackData.enabled = e.enabled ∧
      e.refreshPlaybackData.controllerCoarse = e.controllerCoarse ∧
      e.refreshPlaybackData.controllerFine = e.controllerFine := by
  rw [refreshPlaybackData]
  split
  · exact ⟨rfl, rfl, rfl⟩
  · rw [seat]
    split <;> exact ⟨rfl, rfl, rfl⟩

/-- What is read into a new envelope. -/
theorem readFromXml_new :
    let read := (new t nextC previousC).readFromXml (e.writeToXml id)
    read.enabled = e.enabled ∧ read.controllerCoarse = e.controllerCoarse ∧
      read.controllerFine = e.controllerFine ∧
      read.controlPoint.entries =
        e.controlPoint.entries.filter fun p ↦ !(p.1 = -1 || p.2 = -1) := by
  intro read
  let filled : ControllerEnvelope :=
    { new t nextC previousC with
      controllerCoarse := e.controllerCoarse
      controllerFine := e.controllerFine
      controlPoint := (OrderedMap.empty 0).setAll (xmlPoints (e.writeToXml id))
      enabled := decide ((if e.enabled then "true" else "false") = "true") }
  have hread : read = filled.refreshPlaybackData := rfl
  obtain ⟨henabled, hcoarse, hfine⟩ := filled.refreshPlaybackData_members
  have hflag : filled.enabled = e.enabled := by
    show decide ((if e.enabled then "true" else "false") = "true") = e.enabled
    cases e.enabled <;> decide
  rw [hread, refreshPlaybackData_controlPoint]
  refine ⟨henabled.trans hflag, hcoarse, hfine, ?_⟩
  show ((OrderedMap.empty 0).setAll (xmlPoints (e.writeToXml id))).entries = _
  rw [xmlPoints_writeToXml, OrderedMap.entries_setAll (e.controlPoint.sorted_entries.filter _)
    fun n hn ↦ absurd hn List.not_mem_nil]
  rfl

/-- An envelope comes back from a project file as it was saved. -/
theorem readFromXml_writeToXml (h : ∀ n ∈ e.controlPoint.nodes, 0 ≤ n.key ∧ 0 ≤ n.value) :
    let read := (new t nextC previousC).readFromXml (e.writeToXml id)
    returnedId (e.writeToXml id) = some id ∧ read.enabled = e.enabled ∧
      read.controllerCoarse = e.controllerCoarse ∧ read.controllerFine = e.controllerFine ∧
      read.controlPoint.entries = e.controlPoint.entries := by
  obtain ⟨henabled, hcoarse, hfine, hentries⟩ := e.readFromXml_new id t nextC previousC
  refine ⟨rfl, henabled, hcoarse, hfine, hentries.trans (List.filter_eq_self.mpr fun p hp ↦ ?_)⟩
  obtain ⟨n, hn, rfl⟩ := List.mem_map.mp hp
  obtain ⟨hkey, hvalue⟩ := h n hn
  simp only [Bool.not_eq_true', Bool.or_eq_false_iff, decide_eq_false_iff_not]
  exact ⟨by omega, by omega⟩

/-- The result applies to an envelope with two points. -/
theorem readFromXml_writeToXml_twoPoints :
    returnedId (twoPoints.writeToXml "volume") = some "volume" ∧
      ((new 0 none none).readFromXml (twoPoints.writeToXml "volume")).controlPoint.entries =
        [(16, 5), (48, 7)] := by
  obtain ⟨hid, -, -, -, hentries⟩ :=
    readFromXml_writeToXml twoPoints "volume" 0 none none (by decide +kernel)
  have hpoints : twoPoints.controlPoint.entries = [(16, 5), (48, 7)] := by decide +kernel
  exact ⟨hid, hentries.trans hpoints⟩

end ControllerEnvelope

end Vuknob
