import Mathlib.Data.List.Induction
import Vuknob.Playback.ArpFingers

/-!
# What the fingers count

The keys of the arpeggiator over any sequence of calls: they stand in order, and a finger counts how
often its key has been enabled and not disabled since it was last put down. The counters are taken
to fit into an `int`; they are not greater than the number of calls.
-/

namespace Vuknob

namespace Arpeggiator

variable {A : Arpeggiator}

/-- The keys are in order, and every finger is counted. -/
structure InOrder (A : Arpeggiator) : Prop where
  sorted : (A.finger.map ArpFinger.key).Pairwise (· < ·)
  within : ∃ keys, ArpFinger.Within keys A.finger

theorem InOrder.other_key (h : A.InOrder) {passed rest : List ArpFinger} {g : ArpFinger}
    (hsplit : A.finger = passed ++ g :: rest) :
    ∀ f ∈ passed ++ rest, f ∈ A.finger ∧ f.key ≠ g.key := by
  obtain ⟨keys, hwithin⟩ := h.within
  have hapart := hwithin.apart
  rw [hsplit, List.map_append, List.map_cons, List.nodup_middle, ← List.map_append] at hapart
  intro f hf
  refine ⟨?_, fun hkey ↦ (List.nodup_cons.mp hapart).1 (hkey ▸ List.mem_map_of_mem hf)⟩
  rw [hsplit]
  rcases List.mem_append.mp hf with hf | hf
  · exact List.mem_append_left _ hf
  · exact List.mem_append_right _ (List.mem_cons_of_mem g hf)

theorem InOrder.enableKey (h : A.InOrder) {key : Int} (hkey : key ≠ -1) (velocity : Int) :
    (A.enableKey key velocity).2.InOrder := by
  obtain ⟨keys, hwithin⟩ := h.within
  have hwithin' := within_enableKey hwithin hkey velocity
  refine ⟨?_, _, hwithin'⟩
  rw [Arpeggiator.enableKey] at hwithin' ⊢
  split
  · rw [ArpFinger.Within.map_key_countUp]
    exact h.sorted
  · split
    · next hnot hroom =>
      rw [if_neg hnot, if_pos hroom] at hwithin'
      refine ArpFinger.sortKeys_pairwise ?_
      exact ((ArpFinger.perm_sortKeys _).map ArpFinger.key).nodup_iff.mp hwithin'.apart
    · exact h.sorted

theorem InOrder.disableKey (h : A.InOrder) (key : Int) : (A.disableKey key).InOrder := by
  obtain ⟨keys, hwithin⟩ := h.within
  refine ⟨?_, keys, within_disableKey (hwithin.cons key)⟩
  exact ArpFinger.sortKeys_pairwise (hwithin.cons key).countDown.1.apart

/-- What a finger was before its key or another one was enabled. -/
theorem InOrder.mem_enableKey (h : A.InOrder) {key velocity : Int} {f : ArpFinger}
    (hf : f ∈ (A.enableKey key velocity).2.finger) :
    (f ∈ A.finger ∧ f.key ≠ key) ∨ f.key = key ∧ (A.enableKey key velocity).1 = key ∧
      ((∃ g ∈ A.finger, g.key = key ∧ f.counter = g.counter + 1) ∨
        (∀ g ∈ A.finger, g.key ≠ key) ∧ f.counter = 1) := by
  rcases ArpFinger.key_cases key A.finger with habsent | ⟨passed, g, rest, hsplit, hpassed, hg⟩
  · have hnot : ¬(A.finger.any fun f ↦ f.key = key) = true := by
      rw [ArpFinger.any_key_iff]
      exact fun ⟨g, hg, hkey⟩ ↦ habsent g hg hkey
    rw [Arpeggiator.enableKey, if_neg hnot] at hf ⊢
    split at hf
    · next hroom =>
      rw [if_pos hroom]
      rcases List.mem_append.mp ((ArpFinger.perm_sortKeys _).mem_iff.mp hf) with hold | hnew
      · exact .inl ⟨hold, habsent f hold⟩
      · obtain rfl := List.mem_singleton.mp hnew
        exact .inr ⟨rfl, rfl, .inr ⟨habsent, rfl⟩⟩
    · exact .inl ⟨hf, habsent f hf⟩
  · have hany : (A.finger.any fun f ↦ f.key = key) = true := by
      rw [ArpFinger.any_key_iff, hsplit]
      exact ⟨g, by simp, hg⟩
    have hgmem : g ∈ A.finger := by simp [hsplit]
    rw [Arpeggiator.enableKey, if_pos hany] at hf ⊢
    rw [hsplit, ArpFinger.countUp_of_split velocity rest hpassed hg] at hf
    rcases List.mem_append.mp hf with hf | hf
    · exact .inl (hg ▸ h.other_key hsplit f (List.mem_append_left rest hf))
    · rcases List.mem_cons.mp hf with rfl | hf
      · exact .inr ⟨hg, rfl, .inl ⟨g, hgmem, hg, rfl⟩⟩
      · exact .inl (hg ▸ h.other_key hsplit f (List.mem_append_right passed hf))

/-- What a finger was before its key or another one was disabled. -/
theorem InOrder.mem_disableKey (h : A.InOrder) {key : Int} {f : ArpFinger}
    (hf : f ∈ (A.disableKey key).finger) : (f ∈ A.finger ∧ f.key ≠ key) ∨
      f.key = key ∧ ∃ g ∈ A.finger, g.key = key ∧ f.counter = g.counter - 1 := by
  have hf' : f ∈ ArpFinger.countDown key A.finger := (ArpFinger.perm_sortKeys _).mem_iff.mp hf
  rcases ArpFinger.key_cases key A.finger with habsent | ⟨passed, g, rest, hsplit, hpassed, hg⟩
  · rw [ArpFinger.countDown_of_absent habsent] at hf'
    exact .inl ⟨hf', habsent f hf'⟩
  · have hgmem : g ∈ A.finger := by simp [hsplit]
    have hrest : f ∈ rest → f ∈ A.finger ∧ f.key ≠ key :=
      fun hf ↦ hg ▸ h.other_key hsplit f (List.mem_append_right passed hf)
    rw [hsplit, ArpFinger.countDown_of_split rest hpassed hg] at hf'
    rcases List.mem_append.mp hf' with hf' | hf'
    · exact .inl (hg ▸ h.other_key hsplit f (List.mem_append_left rest hf'))
    · split at hf'
      · exact .inl (hrest hf')
      · rcases List.mem_cons.mp hf' with rfl | hf'
        · exact .inr ⟨hg, g, hgmem, hg, rfl⟩
        · exact .inl (hrest hf')

/-- A key cannot be enabled if it is not down and there are fingers enough. -/
theorem enableKey_eq_neg_one_iff (A : Arpeggiator) {key : Int} (hkey : key ≠ -1)
    (velocity : Int) : (A.enableKey key velocity).1 = -1 ↔
      (∀ f ∈ A.finger, f.key ≠ key) ∧ maxArpFingers ≤ A.finger.length := by
  rw [enableKey]
  split
  · next hany =>
    obtain ⟨f, hf, hfkey⟩ := ArpFinger.any_key_iff.mp hany
    exact iff_of_false hkey fun hall ↦ hall.1 f hf hfkey
  · next hnot =>
    have habsent : ∀ f ∈ A.finger, f.key ≠ key :=
      fun f hf hfkey ↦ hnot (ArpFinger.any_key_iff.mpr ⟨f, hf, hfkey⟩)
    split
    · next hroom => exact iff_of_false hkey fun hall ↦ Nat.not_le.mpr hroom hall.2
    · next hfull => exact iff_of_true rfl ⟨habsent, Nat.not_lt.mp hfull⟩

end Arpeggiator

/-! ## Histories of calls -/

namespace FingerCall

/-- A key that is given is not negative. -/
def InRange : FingerCall → Prop
  | .enableKey key _ => 0 ≤ key
  | .disableKey key => 0 ≤ key
  | .reset => True

/-- A call that returns `r` enables the key with success, or disables it. -/
def change (key : Int) (r : Option Int) : FingerCall → Int
  | .enableKey key' _ => if key' = key ∧ r ≠ some (-1) then 1 else 0
  | .disableKey key' => if key' = key then -1 else 0
  | .reset => 0

theorem change_le_one (c : FingerCall) (key : Int) (r : Option Int) : c.change key r ≤ 1 := by
  cases c with
  | enableKey key' velocity =>
    rw [change]
    split <;> decide
  | disableKey key' =>
    rw [change]
    split <;> decide
  | reset => exact Int.zero_le_ofNat 1

end FingerCall

namespace FingerTable

/-- The table after the calls. -/
def run (t : FingerTable) (calls : List FingerCall) : Option FingerTable :=
  calls.foldlM (fun t c ↦ (t.step c).map Prod.snd) t

/-- How often the calls enable a key with success, less how often they disable it. -/
def balance (key : Int) : List FingerCall → FingerTable → Int
  | [], _ => 0
  | c :: calls, t =>
    match t.step c with
    | none => 0
    | some (r, t') => c.change key r + balance key calls t'

/-- A finger is on the key. -/
def Present (t : FingerTable) (key : Int) : Prop := ∃ f ∈ t.held, f.key = key

/-- The key of the finger was not present after `before` and has been since; its counter is what the
calls since then make it. -/
structure Since (before since : List FingerCall) (f : ArpFinger) : Prop where
  absent : ∃ t, reset.run before = some t ∧ ¬t.Present f.key ∧ f.counter = balance f.key since t
  present : ∀ calls, calls <+: since → calls ≠ [] →
    ∃ t, reset.run (before ++ calls) = some t ∧ t.Present f.key

/-- The finger counts the calls since its key last became present. -/
def Counted (calls : List FingerCall) (f : ArpFinger) : Prop :=
  ∃ before since, calls = before ++ since ∧ Since before since f

theorem run_append (t : FingerTable) (calls more : List FingerCall) :
    t.run (calls ++ more) = (t.run calls).bind fun t ↦ t.run more :=
  List.foldlM_append ..

theorem run_singleton (t : FingerTable) (c : FingerCall) :
    t.run [c] = (t.step c).map Prod.snd := by
  show ((t.step c).map Prod.snd).bind some = _
  exact Option.bind_fun_some _

theorem balance_append {t t' : FingerTable} {calls : List FingerCall} (key : Int)
    (more : List FingerCall) (h : t.run calls = some t') :
    balance key (calls ++ more) t = balance key calls t + balance key more t' := by
  induction calls generalizing t with
  | nil =>
    obtain rfl := Option.some.inj h
    exact (Int.zero_add _).symm
  | cons c calls ih =>
    obtain ⟨t₁, hmap, hrest⟩ := Option.bind_eq_some_iff.mp h
    obtain ⟨⟨r, t₂⟩, hstep, rfl⟩ := Option.map_eq_some_iff.mp hmap
    simp only [List.cons_append, balance, hstep, ih hrest, Int.add_assoc]

theorem balance_le (key : Int) (calls : List FingerCall) (t : FingerTable) :
    balance key calls t ≤ calls.length := by
  induction calls generalizing t with
  | nil => exact Int.le_refl 0
  | cons c calls ih =>
    rw [balance, List.length_cons]
    split
    · omega
    · next r t' _ =>
      have hc := c.change_le_one key r
      have hrest := ih t'
      omega

theorem Counted.le {calls : List FingerCall} {f : ArpFinger} (h : Counted calls f) :
    f.counter ≤ calls.length := by
  obtain ⟨before, since, rfl, ⟨t, -, -, hcounter⟩, -⟩ := h
  have hle := balance_le f.key since t
  rw [List.length_append]
  omega

/-- A key that is present is counted on. -/
theorem Counted.snoc {calls : List FingerCall} {f g : ArpFinger} {c : FingerCall} {r : Option Int}
    {t t' : FingerTable} (h : Counted calls g) (hrun : reset.run calls = some t)
    (hstep : t.step c = some (r, t')) (hkey : g.key = f.key)
    (hcounter : f.counter = g.counter + c.change f.key r) (hpresent : t'.Present f.key) :
    Counted (calls ++ [c]) f := by
  obtain ⟨before, since, rfl, ⟨t₀, hbefore, habsent, hbalance⟩, hall⟩ := h
  rw [run_append, hbefore, Option.bind_some] at hrun
  have hlast : balance f.key [c] t = c.change f.key r := by
    simp only [balance, hstep, Int.add_zero]
  have hrun' : t₀.run (since ++ [c]) = some t' := by
    rw [run_append, hrun, Option.bind_some, run_singleton, hstep]
    rfl
  refine ⟨before, since ++ [c], List.append_assoc .., ⟨t₀, hbefore, hkey ▸ habsent, ?_⟩, ?_⟩
  · rw [balance_append f.key [c] hrun, hlast, hcounter, hbalance, hkey]
  · intro calls hcalls hne
    rcases List.prefix_concat_iff.mp hcalls with rfl | hcalls
    · exact ⟨t', by rw [run_append, hbefore, Option.bind_some, hrun'], hpresent⟩
    · exact hkey ▸ hall calls hcalls hne

/-- A key that becomes present is counted from now on. -/
theorem Counted.first {calls : List FingerCall} {f : ArpFinger} {c : FingerCall} {r : Option Int}
    {t t' : FingerTable} (hrun : reset.run calls = some t) (hstep : t.step c = some (r, t'))
    (habsent : ¬t.Present f.key) (hcounter : f.counter = c.change f.key r)
    (hpresent : t'.Present f.key) : Counted (calls ++ [c]) f := by
  have hrun' : reset.run (calls ++ [c]) = some t' := by
    rw [run_append, hrun, Option.bind_some, run_singleton, hstep]
    rfl
  refine ⟨calls, [c], rfl, ⟨t, hrun, habsent, ?_⟩, fun calls' hcalls hne ↦ ?_⟩
  · simp only [balance, hstep, Int.add_zero]
    exact hcounter
  · rcases List.prefix_concat_iff.mp (show calls' <+: [] ++ [c] from hcalls) with rfl | hcalls
    · exact ⟨t', hrun', hpresent⟩
    · exact absurd (List.prefix_nil.mp hcalls) hne

/-- One call: the fingers after it are on keys that were present, or on one that is now. -/
theorem step_spec {t : FingerTable} {A : Arpeggiator} (h : t.Holds A.finger) (hA : A.InOrder)
    {c : FingerCall} (hc : c.InRange) : ∃ r t', ∃ A' : Arpeggiator, t.step c = some (r, t') ∧
      t'.Holds A'.finger ∧ A'.InOrder ∧ ∀ f ∈ A'.finger,
        (∃ g ∈ A.finger, g.key = f.key ∧ f.counter = g.counter + c.change f.key r) ∨
        (∀ g ∈ A.finger, g.key ≠ f.key) ∧ f.counter = c.change f.key r := by
  cases c with
  | enableKey key velocity =>
    have hkey : key ≠ -1 := by
      have : 0 ≤ key := hc
      omega
    obtain ⟨t', hstep, hholds⟩ := h.enableKey key velocity
    refine ⟨some (A.enableKey key velocity).1, t', _, ?_, hholds, hA.enableKey hkey velocity,
      fun f hf ↦ ?_⟩
    · rw [step, hstep]
      rfl
    · rcases hA.mem_enableKey hf with ⟨hold, hne⟩ | ⟨rfl, hr, ⟨g, hg, hgkey, hcounter⟩ | hnew⟩
      · refine .inl ⟨f, hold, rfl, ?_⟩
        rw [FingerCall.change, if_neg fun hall ↦ hne hall.1.symm, Int.add_zero]
      · refine .inl ⟨g, hg, hgkey, ?_⟩
        rw [FingerCall.change, if_pos ⟨rfl, by rw [hr]; simpa using hkey⟩, hcounter]
      · refine .inr ⟨hnew.1, ?_⟩
        rw [FingerCall.change, if_pos ⟨rfl, by rw [hr]; simpa using hkey⟩, hnew.2]
  | disableKey key =>
    obtain ⟨t', hstep, hholds⟩ := h.disableKey key
    refine ⟨none, t', _, ?_, hholds, hA.disableKey key, fun f hf ↦ ?_⟩
    · rw [step, hstep]
      rfl
    · rcases hA.mem_disableKey hf with ⟨hold, hne⟩ | ⟨rfl, g, hg, hgkey, hcounter⟩
      · refine .inl ⟨f, hold, rfl, ?_⟩
        rw [FingerCall.change, if_neg hne.symm, Int.add_zero]
      · refine .inl ⟨g, hg, hgkey, ?_⟩
        rw [FingerCall.change, if_pos rfl, hcounter]
        rfl
  | reset =>
    exact ⟨none, reset, A.reset, rfl, Holds.reset, ⟨.nil, [], .nil []⟩,
      fun f hf ↦ absurd hf List.not_mem_nil⟩

theorem present_iff {t : FingerTable} {fingers : List ArpFinger} (h : t.Holds fingers) {key : Int} :
    t.Present key ↔ ∃ f ∈ fingers, f.key = key := by
  rw [Present, h.held_eq]

/-- All calls. -/
theorem run_spec {calls : List FingerCall} (hcalls : ∀ c ∈ calls, c.InRange) :
    ∃ t, ∃ A : Arpeggiator, reset.run calls = some t ∧ t.Holds A.finger ∧ A.InOrder ∧
      ∀ f ∈ A.finger, Counted calls f := by
  induction calls using List.reverseRecOn with
  | nil => exact ⟨reset, Arpeggiator.new, rfl, Holds.reset, ⟨.nil, [], .nil []⟩, nofun⟩
  | append_singleton calls c ih =>
    obtain ⟨t, A, hrun, hholds, hA, hcounted⟩ :=
      ih fun c' hc' ↦ hcalls c' (List.mem_append_left _ hc')
    obtain ⟨r, t', A', hstep, hholds', hA', hcases⟩ :=
      step_spec hholds hA (hcalls c (List.mem_append_right _ (List.mem_singleton_self c)))
    refine ⟨t', A', ?_, hholds', hA', fun f hf ↦ ?_⟩
    · rw [run_append, hrun, Option.bind_some, run_singleton, hstep]
      rfl
    · have hpresent : t'.Present f.key := (present_iff hholds').mpr ⟨f, hf, rfl⟩
      rcases hcases f hf with ⟨g, hg, hkey, hcounter⟩ | ⟨habsent, hcounter⟩
      · exact (hcounted g hg).snoc hrun hstep hkey hcounter hpresent
      · refine .first hrun hstep (fun hthere ↦ ?_) hcounter hpresent
        obtain ⟨g, hg, hkey⟩ := (present_iff hholds).mp hthere
        exact habsent g hg hkey

/-- After any calls with keys that are not negative there are at most as many fingers as entries,
their keys ascend, their counters are positive and count since the key last became present, and no
more than there were calls. A key cannot be enabled exactly if it is not present and all entries are
taken. -/
theorem finger_table {calls : List FingerCall} (hcalls : ∀ c ∈ calls, c.InRange) :
    ∃ t, reset.run calls = some t ∧ t.fingerCount ≤ maxArpFingers ∧
      t.held.length = t.fingerCount ∧ t.held.Pairwise (fun f g ↦ f.key < g.key) ∧
      (∀ f ∈ t.held, 1 ≤ f.counter ∧ f.counter ≤ calls.length ∧ Counted calls f) ∧
      ∀ key velocity, 0 ≤ key → ∃ r t', t.enableKey key velocity = some (r, t') ∧
        (r = -1 ↔ ¬t.Present key ∧ t.fingerCount = maxArpFingers) := by
  obtain ⟨t, A, hrun, hholds, hA, hcounted⟩ := run_spec hcalls
  obtain ⟨keys, hwithin⟩ := hA.within
  have hle := hholds.length_le
  have hcount := hholds.count
  refine ⟨t, hrun, by omega, by rw [hholds.held_eq, hcount], ?_, fun f hf ↦ ?_, ?_⟩
  · rw [hholds.held_eq]
    exact List.pairwise_map.mp hA.sorted
  · rw [hholds.held_eq] at hf
    exact ⟨(hwithin.counted f hf).2.1, (hcounted f hf).le, hcounted f hf⟩
  · intro key velocity hkey
    obtain ⟨t', henable, -⟩ := hholds.enableKey key velocity
    refine ⟨_, t', henable, ?_⟩
    rw [A.enableKey_eq_neg_one_iff (by omega), present_iff hholds, hcount]
    refine and_congr ?_ ⟨fun hfull ↦ by omega, fun hfull ↦ by omega⟩
    exact ⟨fun hall ⟨f, hf, hkey⟩ ↦ hall f hf hkey, fun hnone f hf hkey ↦ hnone ⟨f, hf, hkey⟩⟩

/-- Six keys and a repeated one: the sixth one is refused. -/
theorem finger_table_six : ∃ t,
    reset.run ([64, 60, 64, 62, 65, 67, 69].map fun key ↦ .enableKey key 100) = some t ∧
      t.held.map (fun f ↦ (f.key, f.counter)) = [(60, 1), (62, 1), (64, 2), (65, 1), (67, 1)] ∧
      ∀ f ∈ t.held, 1 ≤ f.counter := by
  have hcalls : ∀ c ∈ [64, 60, 64, 62, 65, 67, 69].map fun key ↦ FingerCall.enableKey key 100,
      c.InRange := by
    simp [FingerCall.InRange]
  obtain ⟨t, hrun, -, -, -, hcounted, -⟩ := finger_table hcalls
  have hheld : (reset.run ([64, 60, 64, 62, 65, 67, 69].map fun key ↦ .enableKey key 100)).map
      (fun t ↦ t.held.map fun f ↦ (f.key, f.counter)) =
      some [(60, 1), (62, 1), (64, 2), (65, 1), (67, 1)] := by
    decide +kernel
  rw [hrun, Option.map_some, Option.some.injEq] at hheld
  exact ⟨t, hrun, hheld, fun f hf ↦ (hcounted f hf).1⟩

end FingerTable

end Vuknob
