import Vuknob.Playback.Pad

/-!
# The export of a pad

`Pad::export_to_loop`, `src_jni/engine_code/pad.hh:338–395`: the sessions that start in a range of
ticks are played into a builder. The loop has fuel, and what is left of the sessions, which are reset
again, is not looked at.
-/

namespace Vuknob

/-- The variables of the loop of `export_to_loop`, with `pmxb.current_tick`. -/
structure PadExport where
  remainingSessions : List PadSession
  activeSessions : List PadSession
  currentTick : Int

namespace PadExport

/-- Sessions that start at this tick, `src_jni/engine_code/pad.hh:363–373`. -/
def startSessions (E : PadExport) : PadExport :=
  let started := E.remainingSessions.map (PadSession.startPlay E.currentTick)
  { E with
    remainingSessions := started.filter fun s ↦ !s.inPlay
    activeSessions := E.activeSessions ++ started.filter PadSession.inPlay }

/-- One round of the loop over the active sessions, `src_jni/engine_code/pad.hh:379–384`; there is
no session after it where it is erased. -/
def processSession (scales : Scales) (s : PadSession) : List PadCall × Option PadSession :=
  let (calls, _, s) := s.processSession false false false scales
  let s := s.startPlay (-1)
  (calls, if s.inPlay then some s else none)

/-- The active sessions, `src_jni/engine_code/pad.hh:375–386`. -/
def processSessions (scales : Scales) (E : PadExport) : List PadCall × PadExport :=
  let played := E.activeSessions.map (processSession scales)
  (played.flatMap Prod.fst, { E with activeSessions := played.filterMap Prod.snd })

/-- One round of the loop, `src_jni/engine_code/pad.hh:362–390`. -/
def round (scales : Scales) (E : PadExport) : List PadCall × PadExport :=
  let (calls, E) := E.startSessions.processSessions scales
  (calls, { E with currentTick := E.currentTick + 1 })

/-- The loop, `src_jni/engine_code/pad.hh:361–391`: the calls of each of its rounds. -/
def rounds (scales : Scales) (stopTick : Int) : Nat → PadExport → Option (List (List PadCall))
  | 0, _ => none
  | fuel + 1, E =>
    if E.currentTick < stopTick || !E.activeSessions.isEmpty then
      let (calls, E) := E.round scales
      (rounds scales stopTick fuel E).map (calls :: ·)
    else some []

end PadExport

namespace Pad

/-- Where the export ends, `src_jni/engine_code/pad.hh:341–344`. -/
def exportStop (startTick stopTick : Int) : Int :=
  if stopTick < startTick then 0x7fffffff else stopTick

/-- The sessions that are exported, `src_jni/engine_code/pad.hh:349–359`. -/
def exported (startTick stopTick : Int) (p : Pad) : List PadSession :=
  p.reset.sessions.filter fun s ↦
    startTick ≤ s.startAtTick && s.startAtTick < exportStop startTick stopTick

/-- `export_to_loop`, `src_jni/engine_code/pad.hh:338–395`, into a builder that is at `startTick`,
see `export_pad_to_loop`. -/
def exportToLoop (fuel : Nat) (startTick stopTick : Int) (scales : Scales) (p : Pad) :
    Option (List (List PadCall)) :=
  PadExport.rounds scales (exportStop startTick stopTick) fuel
    ⟨p.exported startTick stopTick, [], startTick⟩

end Pad

end Vuknob
