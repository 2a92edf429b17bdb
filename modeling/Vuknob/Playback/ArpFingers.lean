import Vuknob.Playback.ArpNotes

/-!
# The table of fingers

The array of the arpeggiator with its loops, `src_jni/engine_code/pad.cc:150–229`. The first
`finger_count` entries are the fingers; an access outside of the array is undefined, `none` here.
`disable_key` also resets `current_finger`, which is not in the table.
-/

namespace Vuknob

/-- `finger_count` and `finger`, `src_jni/engine_code/pad.hh:148–149`. -/
structure FingerTable where
  fingerCount : Nat
  finger : List ArpFinger

/-- The calls that change the table. -/
inductive FingerCall
  | enableKey (key velocity : Int)
  | disableKey (key : Int)
  | reset

namespace ArpFinger

/-- A key is not down, or there is a first finger on it. -/
theorem key_cases (key : Int) (fingers : List ArpFinger) :
    (∀ f ∈ fingers, f.key ≠ key) ∨ ∃ passed f rest, fingers = passed ++ f :: rest ∧
      (∀ g ∈ passed, g.key ≠ key) ∧ f.key = key := by
  induction fingers with
  | nil => exact .inl nofun
  | cons f fingers ih =>
    by_cases hf : f.key = key
    · exact .inr ⟨[], f, fingers, rfl, nofun, hf⟩
    · rcases ih with habsent | ⟨passed, g, rest, rfl, hpassed, hg⟩
      · refine .inl fun g hg ↦ ?_
        rcases List.mem_cons.mp hg with rfl | hg
        · exact hf
        · exact habsent g hg
      · refine .inr ⟨f :: passed, g, rest, rfl, fun g' hg' ↦ ?_, hg⟩
        rcases List.mem_cons.mp hg' with rfl | hg'
        · exact hf
        · exact hpassed g' hg'

theorem countUp_of_split {key : Int} (velocity : Int) {passed : List ArpFinger} {f : ArpFinger}
    (rest : List ArpFinger) (hpassed : ∀ g ∈ passed, g.key ≠ key) (hf : f.key = key) :
    countUp key velocity (passed ++ f :: rest) =
      passed ++ { f with counter := f.counter + 1, velocity := velocity } :: rest := by
  induction passed with
  | nil => exact if_pos hf
  | cons g passed ih =>
    rw [List.cons_append, countUp, if_neg (hpassed g List.mem_cons_self),
      ih fun g' hg' ↦ hpassed g' (List.mem_cons_of_mem g hg'), List.cons_append]

theorem countDown_of_split {key : Int} {passed : List ArpFinger} {f : ArpFinger}
    (rest : List ArpFinger) (hpassed : ∀ g ∈ passed, g.key ≠ key) (hf : f.key = key) :
    countDown key (passed ++ f :: rest) = passed ++
      if f.counter - 1 = 0 then rest else { f with counter := f.counter - 1 } :: rest := by
  induction passed with
  | nil => exact if_pos hf
  | cons g passed ih =>
    rw [List.cons_append, countDown, if_neg (hpassed g List.mem_cons_self),
      ih fun g' hg' ↦ hpassed g' (List.mem_cons_of_mem g hg'), List.cons_append]

theorem countDown_of_absent {key : Int} {fingers : List ArpFinger}
    (h : ∀ f ∈ fingers, f.key ≠ key) : countDown key fingers = fingers := by
  induction fingers with
  | nil => rfl
  | cons f fingers ih =>
    rw [countDown, if_neg (h f List.mem_cons_self),
      ih fun g hg ↦ h g (List.mem_cons_of_mem f hg)]

/-- The finger that comes to stand first has the least key. -/
theorem sift_least (first : ArpFinger) (rest : List ArpFinger) :
    (sift first rest).1.key ≤ first.key ∧
      ∀ f ∈ (sift first rest).2, (sift first rest).1.key ≤ f.key := by
  induction rest generalizing first with
  | nil => exact ⟨Int.le_refl _, nofun⟩
  | cons f rest ih =>
    rw [sift]
    split
    · next hless =>
      obtain ⟨hfirst, hall⟩ := ih f
      refine ⟨by dsimp only; omega, fun g hg ↦ ?_⟩
      rcases List.mem_cons.mp hg with rfl | hg
      · dsimp only
        omega
      · exact hall g hg
    · next hless =>
      obtain ⟨hfirst, hall⟩ := ih first
      refine ⟨hfirst, fun g hg ↦ ?_⟩
      rcases List.mem_cons.mp hg with rfl | hg
      · dsimp only
        omega
      · exact hall g hg

theorem siftAll_pairwise (rounds : Nat) (fingers : List ArpFinger)
    (hrounds : fingers.length - 1 ≤ rounds) :
    (siftAll rounds fingers).Pairwise fun f g ↦ f.key ≤ g.key := by
  induction rounds generalizing fingers with
  | zero =>
    match fingers, hrounds with
    | [], _ => exact .nil
    | [f], _ => exact List.pairwise_singleton _ f
    | _ :: _ :: _, hrounds => simp at hrounds
  | succ rounds ih =>
    cases fingers with
    | nil => exact .nil
    | cons f rest =>
      have hlength := (perm_sift f rest).length_eq
      rw [siftAll]
      refine List.pairwise_cons.mpr ⟨fun g hg ↦ ?_, ih _ ?_⟩
      · exact (sift_least f rest).2 g ((perm_siftAll rounds _).mem_iff.mp hg)
      · simp only [List.length_cons] at hlength hrounds
        omega

/-- Different keys are sorted strictly. -/
theorem sortKeys_pairwise {fingers : List ArpFinger} (h : (fingers.map key).Nodup) :
    ((sortKeys fingers).map key).Pairwise (· < ·) := by
  have hle := siftAll_pairwise (fingers.length - 1) fingers (Nat.le_refl _)
  have hne : ((sortKeys fingers).map key).Nodup :=
    ((perm_sortKeys fingers).map key).nodup_iff.mpr h
  have hboth := (List.pairwise_map.mpr hle).and hne
  exact hboth.imp fun ⟨hle, hne⟩ ↦ Int.lt_iff_le_and_ne.mpr ⟨hle, hne⟩

theorem any_key_iff {key : Int} {fingers : List ArpFinger} :
    (fingers.any fun f ↦ f.key = key) = true ↔ ∃ f ∈ fingers, f.key = key := by
  simp only [List.any_eq_true, decide_eq_true_eq]

end ArpFinger

namespace FingerTable

/-- `finger[k] = f`. -/
def store (k : Nat) (f : ArpFinger) (finger : List ArpFinger) : Option (List ArpFinger) :=
  if k < finger.length then some (finger.set k f) else none

/-- `src_jni/engine_code/pad.cc:174–176`. -/
def compareSwap (k l : Nat) (finger : List ArpFinger) : Option (List ArpFinger) := do
  let fl ← finger[l]?
  let fk ← finger[k]?
  if fl.key < fk.key then (store k fl finger).bind (store l fk) else return finger

/-- The inner loop of `sort_keys`, with the rounds that are left. -/
def siftFrom (k : Nat) : Nat → Nat → List ArpFinger → Option (List ArpFinger)
  | 0, _, finger => some finger
  | rounds + 1, l, finger => do siftFrom k rounds (l + 1) (← compareSwap k l finger)

/-- The outer loop of `sort_keys`, with the rounds that are left. -/
def sortFrom (fingerCount : Nat) : Nat → Nat → List ArpFinger → Option (List ArpFinger)
  | 0, _, finger => some finger
  | rounds + 1, k, finger => do
    sortFrom fingerCount rounds (k + 1) (← siftFrom k (fingerCount - (k + 1)) (k + 1) finger)

/-- `sort_keys`, `src_jni/engine_code/pad.cc:167–179`. -/
def sortKeys (fingerCount : Nat) (finger : List ArpFinger) : Option (List ArpFinger) :=
  if fingerCount < 2 then some finger else sortFrom fingerCount (fingerCount - 1) 0 finger

/-- The loops over the fingers that look for a key: where it is found. -/
def search (key : Int) (finger : List ArpFinger) : Nat → Nat → Option (Option Nat)
  | 0, _ => some none
  | rounds + 1, k => do
    let f ← finger[k]?
    if f.key = key then return some k else search key finger rounds (k + 1)

/-- `src_jni/engine_code/pad.cc:212–214`. -/
def shiftDown : Nat → Nat → List ArpFinger → Option (List ArpFinger)
  | 0, _, finger => some finger
  | rounds + 1, l, finger => do
    let f ← finger[l + 1]?
    shiftDown rounds (l + 1) (← store l f finger)

/-- `src_jni/engine_code/pad.cc:215–217`. -/
def clearKeys : Nat → Nat → List ArpFinger → Option (List ArpFinger)
  | 0, _, finger => some finger
  | rounds + 1, l, finger => do
    let f ← finger[l]?
    clearKeys rounds (l + 1) (← store l { f with key := -1 } finger)

/-- `reset`, `src_jni/engine_code/pad.cc:150–159`. -/
def reset : FingerTable := ⟨0, List.replicate maxArpFingers ⟨-1, 0, 0⟩⟩

/-- `enable_key`, `src_jni/engine_code/pad.cc:181–201`. -/
def enableKey (key velocity : Int) (t : FingerTable) : Option (Int × FingerTable) := do
  match ← search key t.finger t.fingerCount 0 with
  | some k =>
    let f ← t.finger[k]?
    let f := { f with counter := f.counter + 1, velocity := velocity }
    return (key, { t with finger := ← store k f t.finger })
  | none =>
    if t.fingerCount < maxArpFingers then
      let finger ← store t.fingerCount ⟨key, velocity, 1⟩ t.finger
      return (key, ⟨t.fingerCount + 1, ← sortKeys (t.fingerCount + 1) finger⟩)
    else return (-1, t)

/-- The loop of `disable_key`, `src_jni/engine_code/pad.cc:204–222`. -/
def release (key : Int) (t : FingerTable) : Option FingerTable := do
  match ← search key t.finger t.fingerCount 0 with
  | some k =>
    let f ← t.finger[k]?
    let finger ← store k { f with counter := f.counter - 1 } t.finger
    if f.counter - 1 = 0 then
      let fingerCount := t.fingerCount - 1
      let finger ← shiftDown (fingerCount - k) k finger
      return ⟨fingerCount, ← clearKeys (maxArpFingers - fingerCount) fingerCount finger⟩
    else return { t with finger := finger }
  | none => return t

/-- `disable_key`, `src_jni/engine_code/pad.cc:203–229`. -/
def disableKey (key : Int) (t : FingerTable) : Option FingerTable := do
  let t ← t.release key
  return { t with finger := ← sortKeys t.fingerCount t.finger }

/-- A call, and what it returns. -/
def step (t : FingerTable) : FingerCall → Option (Option Int × FingerTable)
  | .enableKey key velocity => (t.enableKey key velocity).map fun (r, t) ↦ (some r, t)
  | .disableKey key => (t.disableKey key).map fun t ↦ (none, t)
  | .reset => some (none, reset)

/-- The first `finger_count` entries. -/
def held (t : FingerTable) : List ArpFinger := t.finger.take t.fingerCount

/-! ### Loops over the array -/

/-- The table holds the fingers, and some entries behind them. -/
structure Holds (t : FingerTable) (fingers : List ArpFinger) : Prop where
  count : t.fingerCount = fingers.length
  array : ∃ behind, t.finger = fingers ++ behind
  length : t.finger.length = maxArpFingers

theorem Holds.held_eq {t : FingerTable} {fingers : List ArpFinger} (h : t.Holds fingers) :
    t.held = fingers := by
  obtain ⟨behind, hbehind⟩ := h.array
  rw [held, hbehind, h.count, List.take_left']
  rfl

theorem Holds.length_le {t : FingerTable} {fingers : List ArpFinger} (h : t.Holds fingers) :
    fingers.length ≤ maxArpFingers := by
  obtain ⟨behind, hbehind⟩ := h.array
  rw [← h.length, hbehind, List.length_append]
  omega

theorem store_append (pre : List ArpFinger) (f g : ArpFinger) (post : List ArpFinger) :
    store pre.length g (pre ++ f :: post) = some (pre ++ g :: post) := by
  rw [store, if_pos (by simp), List.set_append_right _ _ (Nat.le_refl _), Nat.sub_self]
  rfl

theorem getElem?_append_length (pre : List ArpFinger) (f : ArpFinger) (post : List ArpFinger) :
    (pre ++ f :: post)[pre.length]? = some f := by
  rw [List.getElem?_append_right (Nat.le_refl _), Nat.sub_self]
  rfl

/-- Two entries, the first of which is the one that is looked for. -/
theorem compareSwap_append (pre mid post : List ArpFinger) (first f : ArpFinger) :
    compareSwap pre.length (pre.length + 1 + mid.length) (pre ++ first :: (mid ++ f :: post)) =
      some (if f.key < first.key then pre ++ f :: (mid ++ first :: post)
        else pre ++ first :: (mid ++ f :: post)) := by
  have hfirst : ∀ g : ArpFinger,
      pre ++ g :: (mid ++ f :: post) = (pre ++ g :: mid) ++ f :: post := by
    simp
  have hlength : ∀ g : ArpFinger, (pre ++ g :: mid).length = pre.length + 1 + mid.length := by
    simp; omega
  have hf : (pre ++ first :: (mid ++ f :: post))[pre.length + 1 + mid.length]? = some f := by
    rw [hfirst, ← hlength first, getElem?_append_length]
  rw [compareSwap, hf, getElem?_append_length]
  show (if f.key < first.key then _ else _) = _
  split
  · rw [store_append, Option.bind_some, hfirst, ← hlength f, store_append]
    simp
  · rfl

/-- The inner loop brings the least finger to the front. -/
theorem siftFrom_append (pre mid todo behind : List ArpFinger) (first : ArpFinger) :
    siftFrom pre.length todo.length (pre.length + 1 + mid.length)
        (pre ++ first :: (mid ++ (todo ++ behind))) =
      some (pre ++ (ArpFinger.sift first todo).1 ::
        (mid ++ ((ArpFinger.sift first todo).2 ++ behind))) := by
  induction todo generalizing mid first with
  | nil => rfl
  | cons f todo ih =>
    have hnext : ∀ g : ArpFinger, pre.length + 1 + mid.length + 1 =
        pre.length + 1 + (mid ++ [g]).length := by
      simp; omega
    rw [List.length_cons, siftFrom, List.cons_append, compareSwap_append, ArpFinger.sift]
    split
    · have hgo := ih (mid ++ [first]) f
      rw [← hnext first] at hgo
      simpa using hgo
    · have hgo := ih (mid ++ [f]) first
      rw [← hnext f] at hgo
      simpa using hgo

/-- The outer loop sorts. -/
theorem sortFrom_append (rounds : Nat) (pre fingers behind : List ArpFinger)
    (hrounds : rounds ≤ fingers.length) :
    sortFrom (pre.length + fingers.length) rounds pre.length (pre ++ (fingers ++ behind)) =
      some (pre ++ (ArpFinger.siftAll rounds fingers ++ behind)) := by
  induction rounds generalizing pre fingers with
  | zero => rfl
  | succ rounds ih =>
    cases fingers with
    | nil => simp at hrounds
    | cons f rest =>
      have hsift := siftFrom_append pre [] rest behind f
      have hperm := (ArpFinger.perm_sift f rest).length_eq
      have hcount : pre.length + (f :: rest).length - (pre.length + 1) = rest.length := by
        simp; omega
      rw [sortFrom, hcount, List.cons_append]
      rw [List.length_nil, Nat.add_zero, List.nil_append, List.nil_append] at hsift
      rw [hsift, ArpFinger.siftAll]
      generalize ArpFinger.sift f rest = sifted at hperm ⊢
      obtain ⟨least, others⟩ := sifted
      have hothers : others.length = rest.length := Nat.add_right_cancel hperm
      rw [List.length_cons] at hrounds
      have hgo := ih (pre ++ [least]) others (by omega)
      have hlength : (pre ++ [least]).length + others.length = pre.length + (f :: rest).length := by
        simp [hothers]; omega
      rw [hlength] at hgo
      simpa using hgo

theorem sortKeys_append (fingers behind : List ArpFinger) :
    sortKeys fingers.length (fingers ++ behind) = some (ArpFinger.sortKeys fingers ++ behind) := by
  rw [sortKeys]
  split
  · next hfew =>
    have hone : fingers.length - 1 = 0 := by omega
    rw [ArpFinger.sortKeys, hone, ArpFinger.siftAll]
    nofun
  · have hsort := sortFrom_append (fingers.length - 1) [] fingers behind (by omega)
    rwa [List.length_nil, Nat.zero_add] at hsort

/-- The loop reads on as long as the key is another one. -/
theorem search_append {key : Int} (pre passed rest : List ArpFinger) (rounds : Nat)
    (hpassed : ∀ f ∈ passed, f.key ≠ key) :
    search key (pre ++ (passed ++ rest)) (passed.length + rounds) pre.length =
      search key (pre ++ (passed ++ rest)) rounds (pre.length + passed.length) := by
  induction passed generalizing pre with
  | nil => rw [List.length_nil, Nat.zero_add, Nat.add_zero]
  | cons f passed ih =>
    have hf : f.key ≠ key := hpassed f List.mem_cons_self
    have hgo := ih (pre ++ [f]) fun g hg ↦ hpassed g (List.mem_cons_of_mem f hg)
    have hlength : (pre ++ [f]).length = pre.length + 1 := by simp
    rw [List.append_assoc, hlength] at hgo
    have hrounds : (f :: passed).length + rounds = passed.length + rounds + 1 := by
      simp; omega
    rw [hrounds, search, List.cons_append, getElem?_append_length]
    show (if f.key = key then _ else _) = _
    rw [if_neg hf]
    refine hgo.trans ?_
    rw [List.length_cons, show pre.length + 1 + passed.length = pre.length + (passed.length + 1) by
      omega]
    rfl

theorem search_of_absent {key : Int} {fingers : List ArpFinger} (behind : List ArpFinger)
    (h : ∀ f ∈ fingers, f.key ≠ key) :
    search key (fingers ++ behind) fingers.length 0 = some none :=
  search_append [] fingers behind 0 h

theorem search_of_split {key : Int} {passed : List ArpFinger} {f : ArpFinger}
    (rest behind : List ArpFinger) (hpassed : ∀ g ∈ passed, g.key ≠ key) (hf : f.key = key) :
    search key (passed ++ f :: rest ++ behind) (passed ++ f :: rest).length 0 =
      some (some passed.length) := by
  have hgo := search_append [] passed (f :: (rest ++ behind)) (rest.length + 1) hpassed
  rw [List.length_nil, Nat.zero_add, List.nil_append] at hgo
  rw [List.append_assoc, List.length_append, List.length_cons, List.cons_append, hgo, search,
    getElem?_append_length]
  show (if f.key = key then _ else _) = _
  rw [if_pos hf]
  rfl

/-- The entry is overwritten by those behind it. -/
theorem shiftDown_append (pre todo behind : List ArpFinger) (f : ArpFinger) :
    ∃ last, shiftDown todo.length pre.length (pre ++ f :: (todo ++ behind)) =
      some (pre ++ (todo ++ last :: behind)) := by
  induction todo generalizing pre f with
  | nil => exact ⟨f, rfl⟩
  | cons g todo ih =>
    obtain ⟨last, hgo⟩ := ih (pre ++ [g]) g
    have hread : (pre ++ f :: (g :: todo ++ behind))[pre.length + 1]? = some g := by simp
    refine ⟨last, ?_⟩
    rw [List.length_cons, shiftDown, hread]
    show (store pre.length g _).bind _ = _
    rw [store_append, Option.bind_some]
    simpa using hgo

/-- The entries behind the fingers are overwritten. -/
theorem clearKeys_append (pre behind : List ArpFinger) :
    ∃ behind', clearKeys behind.length pre.length (pre ++ behind) = some (pre ++ behind') ∧
      behind'.length = behind.length := by
  induction behind generalizing pre with
  | nil => exact ⟨[], rfl, rfl⟩
  | cons f behind ih =>
    obtain ⟨behind', hgo, hlength⟩ := ih (pre ++ [{ f with key := -1 }])
    refine ⟨{ f with key := -1 } :: behind', ?_, by simp [hlength]⟩
    rw [List.length_cons, clearKeys, getElem?_append_length]
    show (store pre.length { f with key := -1 } _).bind _ = _
    rw [store_append, Option.bind_some]
    rwa [List.length_append, List.append_assoc, List.append_assoc] at hgo

/-! ### The operations on the fingers -/

theorem Holds.reset : FingerTable.reset.Holds [] :=
  ⟨rfl, ⟨_, rfl⟩, List.length_replicate⟩

/-- The array does for `enable_key` what the list of fingers does. -/
theorem Holds.enableKey {t : FingerTable} {A : Arpeggiator} (h : t.Holds A.finger)
    (key velocity : Int) :
    ∃ t', t.enableKey key velocity = some ((A.enableKey key velocity).1, t') ∧
      t'.Holds (A.enableKey key velocity).2.finger := by
  obtain ⟨behind, hbehind⟩ := h.array
  have hlength := h.length
  rw [FingerTable.enableKey, Arpeggiator.enableKey, h.count, hbehind]
  rw [hbehind] at hlength
  rcases ArpFinger.key_cases key A.finger with habsent | ⟨passed, f, rest, hsplit, hpassed, hf⟩
  · have hnot : ¬(A.finger.any fun f ↦ f.key = key) = true := by
      rw [ArpFinger.any_key_iff]
      rintro ⟨f, hf, hkey⟩
      exact habsent f hf hkey
    rw [search_of_absent behind habsent, if_neg hnot]
    simp only [Option.bind_eq_bind, Option.bind_some]
    split
    · next hroom =>
      cases behind with
      | nil =>
        rw [List.append_nil] at hlength
        omega
      | cons g behind =>
        have hsort := sortKeys_append (A.finger ++ [⟨key, velocity, 1⟩]) behind
        rw [List.length_append, List.append_assoc] at hsort
        rw [store_append, Option.bind_some]
        refine ⟨_, congrArg (Option.bind · _) hsort, ?_⟩
        have hperm := (ArpFinger.perm_sortKeys (A.finger ++ [⟨key, velocity, 1⟩])).length_eq
        refine ⟨?_, ⟨behind, rfl⟩, ?_⟩
        · rw [hperm, List.length_append]
          rfl
        · rw [List.length_append, hperm, ← hlength]
          simp
          omega
    · exact ⟨t, rfl, h⟩
  · have hany : (A.finger.any fun f ↦ f.key = key) = true := by
      rw [ArpFinger.any_key_iff, hsplit]
      exact ⟨f, by simp, hf⟩
    rw [if_pos hany, hsplit, search_of_split rest behind hpassed hf,
      ArpFinger.countUp_of_split velocity rest hpassed hf]
    simp only [Option.bind_eq_bind, Option.bind_some, List.append_assoc, List.cons_append,
      getElem?_append_length, store_append]
    refine ⟨_, rfl, ?_, ⟨behind, by simp⟩, ?_⟩
    · simp
    · rw [← hlength, hsplit]
      simp

/-- The loop of `disable_key` takes a finger that is not counted any more out of the array. -/
theorem Holds.release {t : FingerTable} {fingers : List ArpFinger} (h : t.Holds fingers)
    (key : Int) : ∃ t', t.release key = some t' ∧
      t'.Holds (ArpFinger.countDown key fingers) := by
  obtain ⟨behind, hbehind⟩ := h.array
  have hlength := h.length
  rw [FingerTable.release, h.count, hbehind]
  rw [hbehind] at hlength
  rcases ArpFinger.key_cases key fingers with habsent | ⟨passed, f, rest, rfl, hpassed, hf⟩
  · rw [search_of_absent behind habsent, ArpFinger.countDown_of_absent habsent]
    exact ⟨t, rfl, h⟩
  · rw [search_of_split rest behind hpassed hf, ArpFinger.countDown_of_split rest hpassed hf]
    simp only [Option.bind_eq_bind, Option.bind_some, List.append_assoc, List.cons_append,
      getElem?_append_length, store_append]
    split
    · next hzero =>
      obtain ⟨last, hshift⟩ := shiftDown_append passed rest behind
        { f with counter := f.counter - 1 }
      have hcount : (passed ++ f :: rest).length - 1 = (passed ++ rest).length := by
        simp
      have hrounds : (passed ++ rest).length - passed.length = rest.length := by
        simp
      have hleft : maxArpFingers - (passed ++ rest).length = (last :: behind).length := by
        rw [← hlength]
        simp; omega
      obtain ⟨behind', hclear, hlength'⟩ := clearKeys_append (passed ++ rest) (last :: behind)
      rw [hcount, hrounds, hshift, hleft, Option.bind_some, ← List.append_assoc, hclear]
      refine ⟨_, rfl, rfl, ⟨behind', rfl⟩, ?_⟩
      rw [← hlength, List.length_append, hlength']
      simp; omega
    · refine ⟨_, rfl, ?_, ⟨behind, by simp⟩, ?_⟩
      · simp
      · rw [← hlength]
        simp

/-- The array does for `disable_key` what the list of fingers does. -/
theorem Holds.disableKey {t : FingerTable} {A : Arpeggiator} (h : t.Holds A.finger) (key : Int) :
    ∃ t', t.disableKey key = some t' ∧ t'.Holds (A.disableKey key).finger := by
  obtain ⟨t₁, hrelease, h₁⟩ := h.release key
  obtain ⟨behind, hbehind⟩ := h₁.array
  have hlength := h₁.length
  have hperm := (ArpFinger.perm_sortKeys (ArpFinger.countDown key A.finger)).length_eq
  rw [FingerTable.disableKey, hrelease]
  simp only [Option.bind_eq_bind, Option.bind_some]
  rw [h₁.count, hbehind, sortKeys_append]
  refine ⟨_, rfl, hperm.symm, ⟨behind, rfl⟩, ?_⟩
  · rw [← hlength, hbehind, List.length_append, List.length_append, hperm]

end FingerTable

end Vuknob
