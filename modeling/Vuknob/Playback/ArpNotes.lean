import Vuknob.Playback.Arpeggiator

/-!
# Notes of the arpeggiator

The arpeggiator has at most one note on, the one in `note`. It ends this note when no key is down
any more, and no key is down when every key that was enabled has been disabled as often.
-/

namespace Vuknob

open Library

namespace PadCall

/-- A note that is started, unless it is muted, is on. -/
theorem accounts_queueNoteOn (mute : Bool) {note : Int} (velocity : Int) (hnote : note ≠ -1) :
    Accounts Starts Ends (fun _ ↦ False) (if mute then [] else [queueNoteOn note velocity])
      (fun n ↦ n ≠ -1 ∧ n = note) := by
  rintro k (⟨hk, -⟩ | hpending)
  · exact hk.elim
  · split at hpending
    · exact absurd hpending not_pending_nil
    · rcases pending_cons_iff.mp hpending with ⟨hk, -⟩ | hpending
      · obtain rfl := starts_queueNoteOn.mp hk
        exact ⟨hnote, rfl⟩
      · exact absurd hpending not_pending_nil

/-- One call ends a note. -/
theorem accounts_queueNoteOff (note velocity : Int) :
    Accounts Starts Ends (fun n ↦ n = note) [queueNoteOff note velocity] (fun _ ↦ False) := by
  rintro n (⟨rfl, hnone⟩ | hpending)
  · exact hnone _ (List.mem_singleton_self _) (ends_queueNoteOff.mpr rfl)
  · exact not_pending_of_forall (by simp) hpending

/-- The note is ended where there is one. -/
theorem accounts_endNote (note velocity : Int) :
    Accounts Starts Ends (fun n ↦ n ≠ -1 ∧ n = note)
      (if note ≠ -1 then [queueNoteOff note velocity] else []) (fun _ ↦ False) := by
  split
  · exact (accounts_queueNoteOff note velocity).anti fun n hn ↦ hn.2
  · next hnote => exact .nil fun n hn ↦ hnote (hn.2 ▸ hn.1)

/-- One note after the other: the old one is ended after the new one has been started. -/
theorem accounts_changeNote {started : List PadCall} {last note velocity : Int}
    (h : Accounts Starts Ends (fun _ ↦ False) started (fun n ↦ n ≠ -1 ∧ n = note)) :
    Accounts Starts Ends (fun n ↦ n ≠ -1 ∧ n = last)
      (started ++ if last ≠ -1 then [queueNoteOff last velocity] else [])
      (fun n ↦ n ≠ -1 ∧ n = note) := by
  have hfirst := (h.frame fun n ↦ n ≠ -1 ∧ n = last).anti fun n hn ↦ .inr hn
  have hrest := ((accounts_endNote last velocity).frame fun n ↦ n ≠ -1 ∧ n = note).anti
    fun n (hn : (n ≠ -1 ∧ n = note) ∨ n ≠ -1 ∧ n = last) ↦ hn.symm
  exact (hfirst.append hrest).mono fun n hn ↦ hn.resolve_left not_false

end PadCall

namespace ArpFinger

theorem perm_sift (first : ArpFinger) (rest : List ArpFinger) :
    ((sift first rest).1 :: (sift first rest).2).Perm (first :: rest) := by
  induction rest generalizing first with
  | nil => exact .refl _
  | cons f rest ih =>
    rw [sift]
    split
    · exact (List.Perm.swap ..).trans ((ih f).cons first)
    · exact (List.Perm.swap ..).trans (((ih first).cons f).trans (.swap ..))

theorem perm_siftAll (rounds : Nat) (fingers : List ArpFinger) :
    (siftAll rounds fingers).Perm fingers := by
  induction rounds generalizing fingers with
  | zero => exact .refl _
  | succ rounds ih =>
    cases fingers with
    | nil => exact .refl _
    | cons f rest => exact ((ih _).cons _).trans (perm_sift f rest)

theorem perm_sortKeys (fingers : List ArpFinger) : (sortKeys fingers).Perm fingers :=
  perm_siftAll ..

/-- The fingers are down on different keys, and no more often than these are among `keys`. -/
structure Within (keys : List Int) (fingers : List ArpFinger) : Prop where
  apart : (fingers.map key).Nodup
  counted : ∀ f ∈ fingers, f.key ≠ -1 ∧ 0 < f.counter ∧ f.counter ≤ keys.count f.key

namespace Within

variable {keys keys' : List Int} {fingers fingers' : List ArpFinger} {k : Int}

theorem nil (keys : List Int) : Within keys [] := ⟨.nil, by simp⟩

theorem perm (h : Within keys fingers) (hperm : fingers'.Perm fingers) : Within keys fingers' where
  apart := (hperm.map key).nodup_iff.mpr h.apart
  counted f hf := h.counted f (hperm.mem_iff.mp hf)

theorem of_count (h : Within keys fingers) (hcount : ∀ k, keys'.count k = keys.count k) :
    Within keys' fingers where
  apart := h.apart
  counted f hf := hcount f.key ▸ h.counted f hf

/-- A mark for no key says nothing. -/
theorem of_cons_none (h : Within (-1 :: keys) fingers) : Within keys fingers where
  apart := h.apart
  counted f hf := by
    have hf := h.counted f hf
    rw [List.count_cons_of_ne hf.1.symm] at hf
    exact hf

theorem tail {f : ArpFinger} (h : Within keys (f :: fingers)) : Within keys fingers where
  apart := (List.nodup_cons.mp h.apart).2
  counted g hg := h.counted g (List.mem_cons_of_mem f hg)

/-- A key that is not down may be counted once less. -/
theorem of_cons (h : Within (k :: keys) fingers) (hk : ∀ f ∈ fingers, f.key ≠ k) :
    Within keys fingers where
  apart := h.apart
  counted f hf := by
    have hf' := h.counted f hf
    rwa [List.count_cons_of_ne (hk f hf).symm] at hf'

theorem cons (h : Within keys fingers) (k : Int) : Within (k :: keys) fingers where
  apart := h.apart
  counted f hf := by
    obtain ⟨hkey, hpos, hle⟩ := h.counted f hf
    have := List.count_le_count_cons (l := keys) (a := f.key) (b := k)
    exact ⟨hkey, hpos, by omega⟩

theorem countDown (h : Within (k :: keys) fingers) :
    Within keys (ArpFinger.countDown k fingers) ∧
      ∀ f ∈ ArpFinger.countDown k fingers, f.key ∈ fingers.map key := by
  induction fingers with
  | nil => exact ⟨.nil keys, by simp [ArpFinger.countDown]⟩
  | cons f rest ih =>
    obtain ⟨hkey, hpos, hle⟩ := h.counted f (List.mem_cons_self ..)
    have hout : ∀ g ∈ rest, g.key ≠ f.key := by
      intro g hg heq
      exact (List.nodup_cons.mp h.apart).1 (heq ▸ List.mem_map_of_mem hg)
    rw [ArpFinger.countDown]
    split
    · next hf =>
      subst hf
      have hrest : Within keys rest := h.tail.of_cons hout
      rw [List.count_cons_self] at hle
      split
      · refine ⟨hrest, fun g hg ↦ ?_⟩
        exact List.mem_map_of_mem (List.mem_cons_of_mem f hg)
      · refine ⟨⟨h.apart, ?_⟩, ?_⟩
        · intro g hg
          rcases List.mem_cons.mp hg with rfl | hg
          · exact ⟨hkey, by dsimp only; omega, by dsimp only; omega⟩
          · exact hrest.counted g hg
        · intro g hg
          rcases List.mem_cons.mp hg with rfl | hg
          · exact List.mem_cons_self ..
          · exact List.mem_map_of_mem (List.mem_cons_of_mem f hg)
    · next hf =>
      obtain ⟨hdown, hmem⟩ := ih h.tail
      refine ⟨⟨List.nodup_cons.mpr ⟨?_, hdown.apart⟩, ?_⟩, ?_⟩
      · intro hin
        obtain ⟨g, hg, heq⟩ := List.mem_map.mp hin
        obtain ⟨g', hg', heq'⟩ := List.mem_map.mp (hmem g hg)
        exact hout g' hg' (heq'.trans heq)
      · intro g hg
        rcases List.mem_cons.mp hg with rfl | hg
        · rw [List.count_cons_of_ne (Ne.symm hf)] at hle
          exact ⟨hkey, hpos, hle⟩
        · exact hdown.counted g hg
      · intro g hg
        rcases List.mem_cons.mp hg with rfl | hg
        · exact List.mem_cons_self ..
        · exact List.mem_cons_of_mem _ (hmem g hg)

theorem map_key_countUp (k velocity : Int) (fingers : List ArpFinger) :
    (ArpFinger.countUp k velocity fingers).map key = fingers.map key := by
  induction fingers with
  | nil => rfl
  | cons f rest ih =>
    rw [ArpFinger.countUp]
    split
    · rfl
    · rw [List.map_cons, ih, List.map_cons]

theorem countUp (h : Within keys fingers) (velocity : Int) :
    Within (k :: keys) (ArpFinger.countUp k velocity fingers) := by
  refine ⟨map_key_countUp k velocity fingers ▸ h.apart, ?_⟩
  induction fingers with
  | nil => simp [ArpFinger.countUp]
  | cons f rest ih =>
    obtain ⟨hkey, hpos, hle⟩ := h.counted f (List.mem_cons_self ..)
    rw [ArpFinger.countUp]
    intro g hg
    split at hg
    · next hf =>
      rcases List.mem_cons.mp hg with rfl | hg
      · refine ⟨hkey, by dsimp only; omega, ?_⟩
        dsimp only
        rw [hf, List.count_cons_self]
        rw [hf] at hle
        omega
      · exact (h.cons k).counted g (List.mem_cons_of_mem f hg)
    · rcases List.mem_cons.mp hg with rfl | hg
      · exact (h.cons k).counted g (List.mem_cons_self ..)
      · exact ih h.tail g hg

end Within

end ArpFinger

namespace Arpeggiator

variable {A : Arpeggiator} {keys : List Int}

/-- No finger is down on a key of which there is none. -/
theorem finger_eq_nil_of_within (h : ArpFinger.Within keys A.finger) (hkeys : ∀ k ∈ keys, k = -1) :
    A.finger = [] := by
  apply List.eq_nil_iff_forall_not_mem.mpr
  intro f hf
  obtain ⟨hkey, hpos, hle⟩ := h.counted f hf
  have hzero : keys.count f.key = 0 := by
    rw [List.count_eq_zero]
    exact fun hmem ↦ hkey (hkeys f.key hmem)
  omega

theorem within_disableKey {k : Int} (h : ArpFinger.Within (k :: keys) A.finger) :
    ArpFinger.Within keys (A.disableKey k).finger :=
  h.countDown.1.perm (ArpFinger.perm_sortKeys _)

theorem within_enableKey {k : Int} (h : ArpFinger.Within keys A.finger) (hk : k ≠ -1)
    (velocity : Int) :
    ArpFinger.Within ((A.enableKey k velocity).1 :: keys) (A.enableKey k velocity).2.finger := by
  rw [enableKey]
  split
  · exact h.countUp velocity
  · next hnot =>
    have hout : ∀ f ∈ A.finger, f.key ≠ k := by
      intro f hf heq
      exact hnot (List.any_eq_true.mpr ⟨f, hf, by simpa using heq⟩)
    split
    · refine ArpFinger.Within.perm ⟨?_, ?_⟩ (ArpFinger.perm_sortKeys _)
      · rw [List.map_append, List.nodup_append]
        refine ⟨h.apart, by simp, ?_⟩
        intro j hj j' hj' heq
        obtain ⟨f, hf, rfl⟩ := List.mem_map.mp hj
        exact hout f hf (heq.trans (List.mem_singleton.mp hj'))
      · intro f hf
        rcases List.mem_append.mp hf with hf | hf
        · exact (h.cons k).counted f hf
        · obtain rfl := List.mem_singleton.mp hf
          refine ⟨hk, Int.one_pos, ?_⟩
          dsimp only
          rw [List.count_cons_self]
          omega
    · exact h.cons (-1)

/-- The key itself where it could be enabled. -/
theorem fst_enableKey (A : Arpeggiator) (k velocity : Int) :
    (A.enableKey k velocity).1 = -1 ∨ (A.enableKey k velocity).1 = k := by
  rw [enableKey]
  split
  · exact .inr rfl
  · split
    · exact .inr rfl
    · exact .inl rfl

/-- What enabling and disabling keys leaves alone. -/
structure SameSound (A B : Arpeggiator) : Prop where
  note : B.note = A.note
  arpDirection : B.arpDirection = A.arpDirection
  currentPattern : B.currentPattern = A.currentPattern

theorem SameSound.refl (A : Arpeggiator) : SameSound A A := ⟨rfl, rfl, rfl⟩

theorem SameSound.trans {A B C : Arpeggiator} (h : SameSound A B) (h' : SameSound B C) :
    SameSound A C :=
  ⟨h'.note.trans h.note, h'.arpDirection.trans h.arpDirection,
    h'.currentPattern.trans h.currentPattern⟩

theorem sameSound_disableKey (A : Arpeggiator) (k : Int) : SameSound A (A.disableKey k) :=
  ⟨rfl, rfl, rfl⟩

theorem sameSound_enableKey (A : Arpeggiator) (k velocity : Int) :
    SameSound A (A.enableKey k velocity).2 := by
  rw [enableKey]
  split
  · exact ⟨rfl, rfl, rfl⟩
  · split <;> exact ⟨rfl, rfl, rfl⟩

theorem SameSound.activePattern {A B : Arpeggiator} (h : SameSound A B) :
    B.activePattern = A.activePattern := by
  rw [Arpeggiator.activePattern, h.arpDirection, h.currentPattern, Arpeggiator.activePattern]

/-- The note that is on. -/
def Sounding (A : Arpeggiator) (n : Int) : Prop := n ≠ -1 ∧ n = A.note

/-- An arpeggiator that plays no pattern has no note on. -/
def Quiet (A : Arpeggiator) : Prop := A.activePattern = none → A.note = -1

theorem Quiet.of_sameSound {A B : Arpeggiator} (h : A.Quiet) (hsame : SameSound A B) : B.Quiet := by
  intro hnone
  rw [hsame.activePattern] at hnone
  exact hsame.note.trans (h hnone)

theorem quiet_reset (A : Arpeggiator) (direction : ArpeggioDirection) (id : Option ArpPatternId) :
    ((A.reset.setDirection direction).setPattern id).Quiet :=
  fun _ ↦ rfl

theorem accounts_silence (mute : Bool) (A : Arpeggiator) :
    Accounts PadCall.Starts PadCall.Ends A.Sounding (A.silence mute).1
      (A.silence mute).2.Sounding := by
  rw [silence]
  split
  · exact ((PadCall.accounts_queueNoteOff A.note A.velocity).anti fun _ hn ↦ hn.2).mono
      fun _ hn ↦ hn.elim
  · exact .nil fun _ hn ↦ hn

theorem note_wrap (pattern : List ArpNote) (A : Arpeggiator) : (A.wrap pattern).note = A.note := by
  rw [wrap]
  split <;> rfl

/-- A key that is chosen gives a note. -/
theorem note_chooseNote {n : ArpNote} {B : Arpeggiator} (h : A.chooseNote n = some B) :
    B.note ≠ -1 := by
  obtain ⟨f, -, rfl⟩ := Option.map_eq_some_iff.mp h
  have := Int.emod_nonneg (f.key + n.octaveOffset * 12) (b := 128) (by decide)
  dsimp only
  omega

theorem accounts_playPhase (mute : Bool) (n : ArpNote) (A : Arpeggiator) :
    Accounts PadCall.Starts PadCall.Ends A.Sounding (A.playPhase mute n).1
      (A.playPhase mute n).2.Sounding := by
  rw [playPhase]
  split
  · cases hchoose : A.chooseNote n with
    | none => exact (PadCall.accounts_endNote A.note A.velocity).mono fun _ hk ↦ hk.elim
    | some B =>
      exact PadCall.accounts_changeNote
        (PadCall.accounts_queueNoteOn mute B.velocity (note_chooseNote hchoose))
  · exact .nil fun _ hk ↦ hk
  · dsimp only
    split
    · exact ((PadCall.accounts_queueNoteOff A.note A.velocity).anti fun _ hn ↦ hn.2).mono
        fun _ hn ↦ hn.elim
    · exact .nil fun _ hk ↦ hk
  · dsimp only
    split <;> exact .nil fun _ hk ↦ hk

theorem accounts_processPattern (mute : Bool) (A : Arpeggiator) :
    Accounts PadCall.Starts PadCall.Ends A.Sounding (A.processPattern mute).1
      (A.processPattern mute).2.Sounding := by
  rw [processPattern]
  split
  · exact .nil fun _ hk ↦ hk
  · next pattern _ =>
    have hwrap : ∀ B : Arpeggiator, (B.wrap pattern).Sounding = B.Sounding := by
      intro B
      funext k
      rw [Sounding, note_wrap, Sounding]
    have hplayed := accounts_playPhase mute
      (pattern.getD ((A.silence mute).2.wrap pattern).patternIndex ⟨0, 0, 0, false⟩)
      ((A.silence mute).2.wrap pattern)
    rw [hwrap] at hplayed
    exact (accounts_silence mute A).append hplayed

/-! ### What a tick leaves alone -/

theorem setting_nextFinger (A : Arpeggiator) : A.nextFinger.arpDirection = A.arpDirection ∧
    A.nextFinger.currentPattern = A.currentPattern ∧ A.nextFinger.finger = A.finger := by
  unfold nextFinger
  dsimp only
  repeat' split
  all_goals exact ⟨rfl, rfl, rfl⟩

theorem setting_playPhase (mute : Bool) (n : ArpNote) (A : Arpeggiator) :
    (A.playPhase mute n).2.arpDirection = A.arpDirection ∧
      (A.playPhase mute n).2.currentPattern = A.currentPattern ∧
      (A.playPhase mute n).2.finger = A.finger := by
  rw [playPhase]
  split
  · cases hchoose : A.chooseNote n with
    | none => exact ⟨rfl, rfl, rfl⟩
    | some B =>
      obtain ⟨f, -, rfl⟩ := Option.map_eq_some_iff.mp hchoose
      exact setting_nextFinger A
  · exact ⟨rfl, rfl, rfl⟩
  · dsimp only
    split <;> exact ⟨rfl, rfl, rfl⟩
  · dsimp only
    split <;> exact ⟨rfl, rfl, rfl⟩

/-- A tick changes neither the direction and the pattern nor the keys. -/
theorem setting_processPattern (mute : Bool) (A : Arpeggiator) :
    (A.processPattern mute).2.arpDirection = A.arpDirection ∧
      (A.processPattern mute).2.currentPattern = A.currentPattern ∧
      (A.processPattern mute).2.finger = A.finger := by
  rw [processPattern]
  split
  · exact ⟨rfl, rfl, rfl⟩
  · next pattern _ =>
    have hwrap : ((A.silence mute).2.wrap pattern).arpDirection = A.arpDirection ∧
        ((A.silence mute).2.wrap pattern).currentPattern = A.currentPattern ∧
        ((A.silence mute).2.wrap pattern).finger = A.finger := by
      unfold silence wrap
      repeat' split
      all_goals exact ⟨rfl, rfl, rfl⟩
    have hphase := setting_playPhase mute
      (pattern.getD ((A.silence mute).2.wrap pattern).patternIndex ⟨0, 0, 0, false⟩)
      ((A.silence mute).2.wrap pattern)
    exact ⟨hphase.1.trans hwrap.1, hphase.2.1.trans hwrap.2.1, hphase.2.2.trans hwrap.2.2⟩

theorem activePattern_processPattern (mute : Bool) (A : Arpeggiator) :
    (A.processPattern mute).2.activePattern = A.activePattern := by
  obtain ⟨hdirection, hpattern, -⟩ := setting_processPattern mute A
  rw [activePattern, hdirection, hpattern, activePattern]

theorem processPattern_of_none (h : A.activePattern = none) (mute : Bool) :
    A.processPattern mute = ([], A) := by
  rw [processPattern, h]

theorem Quiet.processPattern (h : A.Quiet) (mute : Bool) : (A.processPattern mute).2.Quiet := by
  intro hnone
  rw [activePattern_processPattern] at hnone
  rw [processPattern_of_none hnone]
  exact h hnone

/-- Without a key that is down a tick leaves no note on. -/
theorem note_processPattern_of_nil (hquiet : A.Quiet) (hnil : A.finger = []) (mute : Bool) :
    (A.processPattern mute).2.note = -1 := by
  cases hpattern : A.activePattern with
  | none =>
    rw [processPattern_of_none hpattern]
    exact hquiet hpattern
  | some pattern =>
    have hsilent : (A.silence mute).2.note = -1 := by
      rw [silence]
      split
      · rfl
      · next hnot =>
        have hboth : mute = false ∧ A.note = -1 := by simpa [hnil] using hnot
        exact hboth.2
    have hfinger : ((A.silence mute).2.wrap pattern).finger = [] := by
      unfold silence wrap
      repeat' split
      all_goals exact hnil
    rw [processPattern, hpattern]
    dsimp only
    rw [← note_wrap pattern] at hsilent
    generalize (A.silence mute).2.wrap pattern = B at hsilent hfinger
    rw [playPhase]
    split
    · have hnone : ∀ n, B.chooseNote n = none := by
        intro n
        rw [chooseNote, (setting_nextFinger B).2.2, hfinger]
        rfl
      rw [hnone]
    · exact hsilent
    · rw [if_neg (by simp [hsilent])]
      exact hsilent
    · dsimp only
      split <;> exact hsilent

end Arpeggiator

end Vuknob
