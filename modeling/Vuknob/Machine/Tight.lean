import Vuknob.Library.Forest
import Vuknob.Machine.Careful

/-!
# Tight connections

`tightly_connect` (`src_jni/machine.cc:1577–1593`) makes two machines point at each other,
and destroying one destroys the other. The pointers stay paired in every careful run, so the
tight connections are an undirected graph. Where it is a forest,
`internal_disconnect_and_destroy` returns and removes one component.
-/

namespace Vuknob
namespace Space

/-! ### The pointers are paired -/

/-- Tightly connected machines are live and point at each other. -/
def Paired (σ : Space) : Prop :=
  ∀ p q, q ∈ σ.tight p → q ∈ σ.machines ∧ p ∈ σ.tight q

theorem Paired.congr {σ σ' : Space} (h : σ.Paired) (ht : σ'.tight = σ.tight)
    (hlive : ∀ p, p ∈ σ.machines → p ∈ σ'.machines) : σ'.Paired := by
  intro p q hq
  rw [ht] at hq ⊢
  exact ⟨hlive q (h p q hq).1, (h p q hq).2⟩

/-- Putting `m` into the set of one machine. -/
theorem mem_tight_insert {σ : Space} {p m q r : MachineId} (hp : p ∈ σ.machines) :
    r ∈ (σ.modifyMachine p fun x ↦
        { x with tightlyConnected := x.tightlyConnected.insert m }).tight q ↔
      r ∈ σ.tight q ∨ (q = p ∧ r = m) := by
  obtain ⟨x, hx⟩ := Option.isSome_iff_exists.mp (Std.ExtTreeMap.mem_iff_isSome_getElem?.mp hp)
  unfold tight
  rw [modifyMachine, Std.ExtTreeMap.getElem?_modify]
  by_cases hq : q = p
  · subst hq
    simp [hx, or_comm, @eq_comm _ r m]
  · simp [hq, Ne.symm hq]

theorem tight_internalAttachInput {σ σ' : Space} {this : MachineId} {m : Option MachineId}
    {o i : StdString} {r : Except JException Unit}
    (h : σ.internalAttachInput this m o i = some (r, σ')) : σ'.tight = σ.tight := by
  rcases internalAttachInput_cases h with ⟨e, _, rfl⟩ | ⟨m₀, t, s, σ₁, _, _, hl, hf⟩
  · rfl
  have hlink : σ₁.tight = σ.tight := by
    unfold linkInput at hl
    split at hl
    · obtain rfl := Except.ok.inj hl
      exact (kept_settled.setInput σ this i (some s)).tight
    · unfold tight
      rw [(machines_link hl).1]
  obtain ⟨_, σ₃, hrec, rfl⟩ := finishAttach_eq_some hf
  change σ₃.tight = σ.tight
  rw [(kept_settled.recalculate hrec).tight, ← hlink]
  exact tight_modifyMachine _ this _ fun _ ↦ rfl

/-- A new machine has no tight connections, and nothing points at an unused address. -/
theorem setupMachine_paired {σ σ' : Space} (h : σ.Paired) {this : MachineId} {spec : MachineSpec}
    {garbage : Option MachineId} {r : Except JException Unit}
    (hstep : σ.setupMachine this spec garbage = some (r, σ')) : σ'.Paired := by
  obtain ⟨hthis, ⟨e, _, hc⟩ | ⟨output, σ₁, x, _, hc, hx, rfl⟩⟩ := setupMachine_cases hstep
  · have hm := (machines_createOutputs _ _ hc).1
    exact h.congr (by unfold tight; rw [hm]) fun p hp ↦ hm ▸ hp
  · have hm := (machines_createOutputs _ _ hc).1
    refine h.congr ?_ fun p hp ↦ Std.ExtTreeMap.mem_insert.mpr (.inr (hm ▸ hp))
    funext p
    simp only [tight, notify, hm, Std.ExtTreeMap.getElem?_insert]
    by_cases hp : this = p
    · subst hp
      simp [hx, Std.ExtTreeMap.getElem?_eq_none hthis]
    · simp [hp]

/-- A machine goes together with all that is tightly connected to it. -/
theorem Destroys.paired {σ σ' : Space} {lists lists' : Lists} {conns' : Finset Connection}
    {gone : List MachineId} {m : MachineId} (h : Destroys σ σ' lists lists' conns' gone)
    (hgone : ∀ p, p ∈ gone ↔ Library.Reach σ.tight m p) (hp : σ.Paired) : σ'.Paired := by
  intro p q hq
  have hpg : p ∉ gone := ((h.live p).mp (mem_of_tight hq)).2
  have hq' := h.tight_sub hq
  obtain ⟨hlive, hback⟩ := hp p q hq'
  have hqg : q ∉ gone := fun hqg ↦ hpg ((hgone p).mpr (((hgone q).mp hqg).tail hback))
  refine ⟨(h.live q).mpr ⟨hlive, hqg⟩, ?_⟩
  rw [h.tight q hqg]
  exact hback

theorem step_paired {σ σ' : Space} {lists : Lists} {conns : Finset Connection} {a : Action}
    {r : Except JException Unit} (h : Sound σ lists conns) (hp : σ.Paired)
    (hstep : σ.step a = some (r, σ')) : σ'.Paired := by
  -- The calls that only cut connections.
  have hcut : Shrinks σ σ' → Settled σ σ' → σ'.Paired := fun hsh hset ↦
    hp.congr hset.tight fun p ↦ (hsh.live p).mpr
  cases a with
  | setupMachine this spec garbage => exact setupMachine_paired hp hstep
  | registerSink s =>
    obtain ⟨_, rfl | rfl⟩ := registerSink_cases hstep
    · exact hp
    · exact hp
  | attachInput this m o i =>
    refine hp.congr (tight_internalAttachInput hstep) fun p hlive ↦ ?_
    rcases internalAttachInput_connects hstep with rfl | ⟨q, hcon⟩
    · exact hlive
    · exact (hcon.live p).mpr hlive
  | detachInput this m o i =>
    exact hcut (kept_shrinks.internalDetachInput hstep) (kept_settled.internalDetachInput hstep)
  | detachAllInputs this m =>
    exact hcut (kept_shrinks.detachAllInputs hstep) (kept_settled.detachAllInputs hstep)
  | detachAllOutputs this =>
    exact hcut (kept_shrinks.detachAllOutputs hstep) (kept_settled.detachAllOutputs hstep)
  | tightlyConnect this m =>
    have hsh := shrinks_tightlyConnect hstep
    rcases tightlyConnect_cases hstep with rfl | ⟨m₀, hthis, hm, rfl⟩
    · exact hp
    · intro p q hq
      rw [mem_tight_insert (Std.ExtTreeMap.mem_modify.mpr hm), mem_tight_insert hthis] at hq ⊢
      rcases hq with (hq | ⟨rfl, rfl⟩) | ⟨rfl, rfl⟩
      · exact ⟨(hsh.live q).mpr (hp p q hq).1, .inl (.inl (hp p q hq).2)⟩
      · exact ⟨(hsh.live q).mpr hm, .inr ⟨rfl, rfl⟩⟩
      · exact ⟨(hsh.live q).mpr hthis, .inl (.inr ⟨rfl, rfl⟩)⟩
  | disconnectAndDestroy m =>
    obtain ⟨_, _, _, _, hdes, hgone⟩ := disconnectAndDestroy_sound _ _ _ _ _ _ _ h hstep
    exact hdes.paired hgone hp

/-- The pointers are paired after every careful run. -/
theorem run_paired {σ : Space} {as : List Action}
    (h : Library.Run step (fun σ a _ ↦ σ.careful a = true) Space.empty as σ) : σ.Paired := by
  have hinv := h.invariant (fun σ ↦ (∃ lists conns, Sound σ lists conns) ∧ σ.Paired) ?_
    ⟨⟨_, _, sound_empty⟩, fun p q hq ↦ ?_⟩
  · exact hinv.2
  · rintro σ a r σ' ⟨⟨lists, conns, hs⟩, hp⟩ hc hstep
    exact ⟨step_sound hs hc hstep, step_paired hs hp hstep⟩
  · simpa [Space.empty] using mem_of_tight hq

/-! ### Forests of tight connections -/

/-- The graph of tight connections. -/
def tightGraph (σ : Space) : SimpleGraph MachineId :=
  SimpleGraph.fromRel fun p q ↦ q ∈ σ.tight p

/-- The tight connections have no cycle, and no machine is connected to itself. -/
structure TightForest (σ : Space) : Prop where
  loopless : ∀ p, p ∉ σ.tight p
  acyclic : σ.tightGraph.IsAcyclic

/-- The machines that `m` reaches in `G` are live, and their tight connections are their
neighbours. -/
def Follows (σ : Space) (G : SimpleGraph MachineId) (m : MachineId) : Prop :=
  ∀ v, G.Reachable m v → v ∈ σ.machines ∧ ∀ w, w ∈ σ.tight v ↔ G.Adj v w

theorem Follows.reach_iff {σ : Space} {G : SimpleGraph MachineId} {m : MachineId}
    (h : σ.Follows G m) (p : MachineId) : Library.Reach σ.tight m p ↔ G.Reachable m p := by
  constructor
  · intro hp
    induction hp with
    | refl => exact .refl _
    | tail _ hab ih => exact ih.trans (((h _ ih).2 _).mp hab).reachable
  · rintro ⟨w⟩
    -- The hypothesis is about what `m` reaches, so the walk is followed from `m`.
    induction w using SimpleGraph.Walk.concatRec with
    | Hnil => exact .refl
    | Hconcat w hadj ih => exact (ih h).tail (((h _ ⟨w⟩).2 _).mpr hadj)

theorem Paired.follows {σ : Space} (h : σ.Paired) (hf : σ.TightForest) {m : MachineId}
    (hm : m ∈ σ.machines) : σ.Follows σ.tightGraph m := by
  have hadj : ∀ v w, w ∈ σ.tight v ↔ σ.tightGraph.Adj v w := by
    intro v w
    rw [tightGraph, SimpleGraph.fromRel_adj]
    constructor
    · intro hw
      refine ⟨?_, .inl hw⟩
      rintro rfl
      exact hf.loopless v hw
    · rintro ⟨_, hw | hw⟩
      · exact hw
      · exact (h w v hw).2
  rintro v ⟨w⟩
  refine ⟨?_, hadj v⟩
  induction w with
  | nil => exact hm
  | cons huv _ ih => exact ih (h _ _ ((hadj _ _).mpr huv)).1

/-- The loop returns when it returns for the branches of a forest. -/
private theorem destroyTight_returns {destroy : MachineId → Space → Outcome Unit}
    (hd : DestroysReached destroy) {G : SimpleGraph MachineId} (hG : G.IsAcyclic)
    {this : MachineId}
    (hret : ∀ o σ lists conns, G.Adj this o → Sound σ lists conns →
      σ.Follows (G.deleteIncidenceSet this) o → ∃ σ', destroy o σ = some (.ok (), σ'))
    (fuel : Nat) {other : Option MachineId} {σ : Space} {lists : Lists}
    {conns : Finset Connection} (front rest : List MachineId) (h : Sound σ lists conns)
    (hat : other = rest.head?) (hthis : this ∈ σ.machines) (ht : σ.tight this = front ++ rest)
    (hadj : ∀ o ∈ rest, G.Adj this o)
    (hrest : ∀ o ∈ rest, ∀ v, (G.deleteIncidenceSet this).Reachable o v →
      v ∈ σ.machines ∧ ∀ w, w ∈ σ.tight v ↔ G.Adj v w)
    (hf : rest.length ≤ fuel) :
    ∃ σ', destroyTight destroy this fuel other σ = some (.ok (), σ') := by
  induction fuel generalizing other σ lists conns front rest with
  | zero =>
    obtain rfl := List.length_eq_zero_iff.mp (Nat.le_zero.mp hf)
    subst hat
    exact ⟨σ, rfl⟩
  | succ fuel ih =>
    cases rest with
    | nil =>
      subst hat
      exact ⟨σ, rfl⟩
    | cons o rest =>
      subst hat
      have ho : G.Adj this o := hadj o (by simp)
      let σ₀ := σ.modifyMachine o fun x ↦
        { x with tightlyConnected := x.tightlyConnected.erase this }
      -- Without its pointer to `this` the machine is the root of its branch.
      have hbranch : σ₀.Follows (G.deleteIncidenceSet this) o := by
        intro v hv
        obtain ⟨hlive, hw⟩ := hrest o (by simp) v hv
        refine ⟨Std.ExtTreeMap.mem_modify.mpr hlive, fun w ↦ ?_⟩
        rw [mem_tight_erase, hw, SimpleGraph.deleteIncidenceSet_adj]
        have hne := Library.not_reachable_deleteIncidenceSet hv ho.ne'
        refine and_congr_right fun hvw ↦ ⟨fun hc ↦ ⟨hne, ?_⟩, fun hc h' ↦ hc.2 h'.2⟩
        rintro rfl
        exact hc ⟨(Library.branch_unique hG ho hvw.symm hv).symm, rfl⟩
      have hs₀ := sound_setTight h o (·.erase this)
      obtain ⟨τ, hτ⟩ := hret o σ₀ lists conns ho hs₀ hbranch
      obtain ⟨_, lists₁, conns₁, gone, hdes₀, hgone⟩ := hd _ _ _ _ _ _ hs₀ hτ
      have hgone' : ∀ p, p ∈ gone ↔ (G.deleteIncidenceSet this).Reachable o p := fun p ↦
        (hgone p).trans (hbranch.reach_iff p)
      have hdes := hdes₀.of_setTight (f := (·.erase this)) ((hgone o).mpr .refl)
      have hkept : this ∉ gone := fun hg ↦
        Library.not_reachable_deleteIncidenceSet ((hgone' this).mp hg) ho.ne' rfl
      have hthis' : this ∈ τ.machines := (hdes.live this).mpr ⟨hthis, hkept⟩
      obtain ⟨t, hlive⟩ := Option.isSome_iff_exists.mp
        (Std.ExtTreeMap.mem_iff_isSome_getElem?.mp hthis')
      have htight : τ.tight this = front ++ o :: rest := by rw [hdes.tight this hkept, ht]
      have hsorted := htight ▸ tight_sorted τ this
      have hnext : t.tightlyConnected.toList.find? (o < ·) = rest.head? := by
        rw [← tight_eq hlive, htight]
        exact find?_next hsorted
      obtain ⟨σ', hrun⟩ := ih (front ++ [o]) rest hdes.sound hnext hthis' (by simp [htight])
        (fun a ha ↦ hadj a (by simp [ha]))
        (fun a ha v hv ↦ by
          -- The branches do not meet, so this one has been left alone.
          have hv' : v ∉ gone := by
            intro hg
            have hoa := ((hgone' v).mp hg).trans hv.symm
            have heq := Library.branch_unique hG ho (hadj a (by simp [ha])) hoa
            have hlt := (List.pairwise_cons.mp (List.pairwise_append.mp hsorted).2.1).1 a ha
            exact Nat.ne_of_lt hlt heq
          obtain ⟨hvlive, hw⟩ := hrest a (by simp [ha]) v hv
          rw [hdes.tight v hv']
          exact ⟨(hdes.live v).mpr ⟨hvlive, hv'⟩, hw⟩)
        (by simp only [List.length_cons] at hf; omega)
      refine ⟨σ', ?_⟩
      have holive : o ∈ σ.machines := (hrest o (by simp) o (.refl _)).1
      have hmem : o ∈ t.tightlyConnected := by
        rw [← Std.ExtTreeSet.mem_toList, ← tight_eq hlive, htight]
        simp
      have hcall : destroy o (σ.modifyMachine o fun x ↦
          { x with tightlyConnected := x.tightlyConnected.erase this }) = some (.ok (), τ) := hτ
      rw [List.head?_cons, destroyTight, if_pos holive]
      simp only [hcall, hlive, if_pos hmem, hrun]

/-- In a forest `internal_disconnect_and_destroy` returns; `s` holds the machines it may still
come to. -/
theorem disconnectAndDestroy_returns (fuel : Nat) {G : SimpleGraph MachineId}
    (hG : G.IsAcyclic) {σ : Space} {lists : Lists} {conns : Finset Connection}
    (h : Sound σ lists conns) {m : MachineId} (hfollows : σ.Follows G m)
    (s : Finset MachineId) (hs : ∀ v, G.Reachable m v → v ∈ s) (hf : s.card ≤ fuel) :
    ∃ σ', disconnectAndDestroy fuel m σ = some (.ok (), σ') := by
  induction fuel generalizing G σ lists conns m s with
  | zero =>
    rw [Finset.card_eq_zero.mp (Nat.le_zero.mp hf)] at hs
    exact absurd (hs m (.refl _)) (Finset.notMem_empty m)
  | succ fuel ih =>
    obtain ⟨hm, hadj⟩ := hfollows m (.refl _)
    obtain ⟨σ₁, lists₁, conns₁, hrun₁, hsound₁, htrim₁⟩ := detachAndDestroy_sound h hm
    have hset₁ := kept_settled.detachAndDestroy hrun₁
    have hm₁ : m ∈ σ₁.machines := (htrim₁.shrinks.live m).mpr hm
    obtain ⟨t, ht⟩ := Option.isSome_iff_exists.mp
      (Std.ExtTreeMap.mem_iff_isSome_getElem?.mp hm₁)
    have htight : σ.tight m = t.tightlyConnected.toList := by rw [← hset₁.tight, tight_eq ht]
    have hbranch : ∀ o v, G.Adj m o → (G.deleteIncidenceSet m).Reachable o v →
        G.Reachable m v := fun o v ho hv ↦ Library.reachable_iff_branch.mpr (.inr ⟨o, ho, hv⟩)
    have hadj' : ∀ o ∈ t.tightlyConnected.toList, G.Adj m o := by
      rw [← htight]
      exact fun o ho ↦ (hadj o).mp ho
    have hlen : t.tightlyConnected.toList.length ≤ σ₁.machines.size := by
      rw [← Std.ExtTreeMap.length_keys]
      refine (List.Nodup.subperm ?_ fun o ho ↦ ?_).length_le
      · rw [← tight_eq ht]
        exact (tight_sorted σ₁ m).imp Nat.ne_of_lt
      · rw [Std.ExtTreeMap.mem_keys, htrim₁.shrinks.live]
        exact (hfollows o (hadj' o ho).reachable).1
    obtain ⟨σ₂, hrun₂⟩ := destroyTight_returns (disconnectAndDestroy_sound fuel) hG
      (fun o τ l c ho hτ hfol ↦ by
        refine ih (hG.anti (G.deleteIncidenceSet_le m)) hτ hfol (s.erase m) (fun v hv ↦ ?_) ?_
        · exact Finset.mem_erase.mpr ⟨Library.not_reachable_deleteIncidenceSet hv ho.ne',
            hs v (hbranch o v ho hv)⟩
        · rw [Finset.card_erase_of_mem (hs m (.refl _))]
          omega)
      σ₁.machines.size [] t.tightlyConnected.toList hsound₁ rfl hm₁ (tight_eq ht) hadj'
      (fun o ho v hv ↦ by
        rw [htrim₁.shrinks.live, hset₁.tight]
        exact hfollows v (hbranch o v (hadj' o ho) hv))
      hlen
    obtain ⟨_, lists₂, conns₂, gone, hdes, hkept, _⟩ :=
      destroyTight_sound (disconnectAndDestroy_sound fuel) _ [] t.tightlyConnected.toList hsound₁
        rfl hm₁ (tight_eq ht) hrun₂
    obtain ⟨σ₃, hrun₃, _⟩ := deregister_sound hdes.sound ((hdes.live m).mpr ⟨hm₁, hkept⟩)
      fun d i a ha ↦ by
        rw [hdes.origin, htrim₁.origin]
        exact ((htrim₁.mem d i a).mp ((hdes.mem d i a).mp ha).1).2
    refine ⟨σ₃, ?_⟩
    simp only [disconnectAndDestroy, hrun₁, ht, hrun₂, hrun₃]

/-! ### One component goes -/

/-- Nothing that is left mentions the machine `p`. -/
structure Forgets (σ : Space) (p : MachineId) : Prop where
  dependant : ∀ (d : MachineId) x, σ.machines[d]? = some x → p ∉ x.dependant
  input : ∀ d l, σ.inputEntries d = some l → ∀ e ∈ l, (σ.signals e.2).originator ≠ p
  attached : ∀ s, p ∉ (σ.signals s).attachedMachines
  chain : ∃ chain, Library.IsList σ.renderPtr σ.topRenderChain chain ∧ p ∉ chain
  sink : σ.sink ≠ some p

/-- A sound space mentions only live machines. -/
theorem Sound.forgets {σ : Space} {lists : Lists} {conns : Finset Connection}
    (h : Sound σ lists conns) {p : MachineId} (hp : p ∉ σ.machines) : σ.Forgets p where
  dependant d x hx hd := hp (h.closed.dependant d x hx p hd)
  input d l hl e he := by
    rintro rfl
    unfold inputEntries at hl
    split at hl
    · cases hl
    · next t ht =>
      obtain ⟨entries, hentries, _, hmem⟩ := inputEntries_wired h.wired ht
      have heq : some entries = some l := by rw [← hentries, inputEntries, ht]; exact hl
      rw [← Option.some.inj heq, hmem, h.wired.mem] at he
      exact hp (mem_of_output (h.wired.source d e.1 e.2 he))
  attached s hs := by
    have hne : σ.wiring.attached s p ≠ none := by
      simpa [wiring] using hs
    rw [h.wired.attached, Ne, Wiring.tally_eq_none_iff, Finset.card_eq_zero] at hne
    obtain ⟨c, hc⟩ := Finset.nonempty_iff_ne_empty.mpr hne
    obtain ⟨hmem, rfl, _⟩ := Finset.mem_filter.mp hc
    exact hp (mem_of_list h.wired ((h.wired.mem _ _ _).mp hmem))
  chain := by
    obtain ⟨chain, hl⟩ := h.chained
    exact ⟨chain, hl, fun hc ↦ hp (mem_of_isList hl p hc)⟩
  sink hs := hp (h.sink p hs)

/-- What `internal_disconnect_and_destroy(m)` is for: it returns, the component of `m` is
deregistered, each machine of it once, nothing mentions it any more, and the other machines
keep their connections with one another. -/
def RemovesComponent (σ : Space) (m : MachineId) : Prop :=
  ∃ σ' gone, σ.internalDisconnectAndDestroy m = some (.ok (), σ') ∧
    (∀ p, p ∈ gone ↔ σ.tightGraph.Reachable m p) ∧ gone.Nodup ∧
    (∀ p, p ∈ σ'.machines ↔ p ∈ σ.machines ∧ p ∉ gone) ∧
    σ'.unregistered = σ.unregistered ++ gone ∧ (∀ p ∈ gone, σ'.Forgets p) ∧
    (∀ s, (σ'.signals s).originator = (σ.signals s).originator) ∧
    ∀ d ∈ σ'.machines, ∃ l l', σ.inputEntries d = some l ∧ σ'.inputEntries d = some l' ∧
      l'.Perm (l.filter fun e ↦ (σ.signals e.2).originator ∉ gone)

/-- In every careful run, where the tight connections form a forest. -/
theorem destroy_removes_component {σ : Space} {as : List Action}
    (h : Library.Run step (fun σ a _ ↦ σ.careful a = true) Space.empty as σ)
    (hforest : σ.TightForest) (m : MachineId) (hm : m ∈ σ.machines) : σ.RemovesComponent m := by
  obtain ⟨lists, conns, hs⟩ := run_sound h
  have hfollows := (run_paired h).follows hforest hm
  obtain ⟨σ', hrun⟩ := disconnectAndDestroy_returns (σ.machines.size + 1) hforest.acyclic hs hfollows
    σ.machines.keys.toFinset (fun v hv ↦ by simpa using (hfollows v hv).1)
    (by
      refine (List.toFinset_card_le _).trans ?_
      rw [Std.ExtTreeMap.length_keys]
      omega)
  obtain ⟨_, lists', conns', gone, hdes, hgone⟩ := disconnectAndDestroy_sound _ _ _ _ _ _ _ hs hrun
  refine ⟨σ', gone, hrun, fun p ↦ (hgone p).trans (hfollows.reach_iff p), hdes.nodup, hdes.live,
    hdes.told, fun p hp ↦ ?_, fun s ↦ congrFun hdes.origin s, fun d hd ↦ ?_⟩
  · exact hdes.sound.forgets fun hlive ↦ ((hdes.live p).mp hlive).2 hp
  · obtain ⟨hd₀, hdg⟩ := (hdes.live d).mp hd
    obtain ⟨x, hx⟩ := Option.isSome_iff_exists.mp (Std.ExtTreeMap.mem_iff_isSome_getElem?.mp hd₀)
    obtain ⟨x', hx'⟩ := Option.isSome_iff_exists.mp (Std.ExtTreeMap.mem_iff_isSome_getElem?.mp hd)
    obtain ⟨l, hl, hn, hmem⟩ := inputEntries_wired hs.wired hx
    obtain ⟨l', hl', hn', hmem'⟩ := inputEntries_wired hdes.sound.wired hx'
    refine ⟨l, l', hl, hl', (List.perm_ext_iff_of_nodup hn' (hn.filter _)).mpr fun e ↦ ?_⟩
    rw [hmem', hdes.sound.wired.mem, hdes.mem, List.mem_filter, hmem, hs.wired.mem,
      decide_eq_true_eq]
    exact and_congr_right fun _ ↦ and_iff_right hdg

/-- A synthesizer with its sequencer, and a mixer that both of them feed. -/
def sequenced : List Action :=
  [.setupMachine 1 (.mono ["left", "right"] []) none, .setupMachine 2 (.mono [] ["out"]) none,
    .setupMachine 3 (.mono [] ["out"]) none, .tightlyConnect 2 (some 3),
    .attachInput 1 (some 2) (str "out") (str "left"),
    .attachInput 1 (some 3) (str "out") (str "right")]

/-- Without tight connections there is nothing to form a cycle. -/
theorem tightForest_of_none {σ : Space} (h : ∀ p, σ.tight p = []) : σ.TightForest := by
  refine ⟨fun p hp ↦ by simp [h] at hp, ?_⟩
  have hbot : σ.tightGraph = ⊥ := by
    ext p q
    simp [tightGraph, h]
  rw [hbot]
  exact SimpleGraph.isAcyclic_bot

/-- One tight connection is a forest. -/
private theorem tightForest_of_edge {σ : Space} {a b : MachineId} (hab : a ≠ b)
    (h : ∀ p, σ.tight p = if p = a then [b] else if p = b then [a] else []) : σ.TightForest := by
  have hmem : ∀ p q, q ∈ σ.tight p ↔ (p = a ∧ q = b) ∨ (p = b ∧ q = a) := by
    intro p q
    rw [h p]
    split
    · next hp => simp [hp, hab]
    · next hp => simp [hp]
  refine ⟨fun p hp ↦ ?_, ?_⟩
  · rcases (hmem p p).mp hp with ⟨rfl, rfl⟩ | ⟨rfl, rfl⟩
    · exact hab rfl
    · exact hab rfl
  · have hle : σ.tightGraph ≤ ⊥ ⊔ SimpleGraph.edge a b := by
      intro p q hpq
      rw [tightGraph, SimpleGraph.fromRel_adj, hmem, hmem] at hpq
      rw [bot_sup_eq, SimpleGraph.edge_adj]
      tauto
    refine (SimpleGraph.isAcyclic_bot.sup_edge_of_not_reachable ?_).anti hle
    rwa [SimpleGraph.reachable_bot]

/-- The result applies to a synthesizer that goes together with its sequencer. -/
theorem destroy_removes_component_sequenced :
    ∃ σ, Library.Run step (fun σ a _ ↦ σ.careful a = true) Space.empty sequenced σ ∧
      σ.TightForest ∧ 2 ∈ σ.machines ∧ σ.RemovesComponent 2 := by
  have heval : (Library.runAll step (fun σ a _ ↦ σ.careful a) Space.empty sequenced).map (fun σ ↦
      (σ.machines.keys, σ.tight 1, σ.tight 2, σ.tight 3)) = some ([1, 2, 3], [], [3], [2]) := by
    decide +kernel
  obtain ⟨σ, hσ, h⟩ := Option.map_eq_some_iff.mp heval
  obtain ⟨hkeys, h₁, h₂, h₃⟩ : σ.machines.keys = [1, 2, 3] ∧ σ.tight 1 = [] ∧ σ.tight 2 = [3] ∧
      σ.tight 3 = [2] := by simpa using h
  have hlive : ∀ p, p ∈ σ.machines ↔ p ∈ [1, 2, 3] := fun p ↦ by
    rw [← hkeys, Std.ExtTreeMap.mem_keys]
  have hforest : σ.TightForest := by
    refine tightForest_of_edge (a := 2) (b := 3) (by decide) fun p ↦ ?_
    by_cases hp : p ∈ σ.machines
    · rw [hlive] at hp
      simp only [List.mem_cons, List.not_mem_nil, or_false] at hp
      rcases hp with rfl | rfl | rfl
      · exact h₁
      · exact h₂
      · exact h₃
    · have hnil : σ.tight p = [] := List.eq_nil_iff_forall_not_mem.mpr fun q hq ↦
        hp (mem_of_tight hq)
      rw [hlive] at hp
      simp only [List.mem_cons, List.not_mem_nil, or_false, not_or] at hp
      simp [hnil, hp]
  have hrun := Library.Run.of_runAll hσ
  have hm : 2 ∈ σ.machines := (hlive 2).mpr (by decide)
  exact ⟨σ, hrun, hforest, hm, destroy_removes_component hrun hforest 2 hm⟩

/-- A detachment that names the wrong input throws, but has counted the connection off. The
machine that is destroyed next stays on a list and in `dependant`, although no two
connections join the same machines. -/
theorem destroyed_machine_mentioned :
    ¬ ∀ (as : List Action) (σ : Space) (m : MachineId),
      Library.Run step (fun _ _ _ ↦ True) Space.empty as σ → σ.TightForest →
      (∀ d l, σ.inputEntries d = some l →
        (l.map fun e ↦ (σ.signals e.2).originator).Nodup) →
      m ∈ σ.machines → σ.RemovesComponent m := by
  intro hall
  let misled : List Action :=
    [.setupMachine 1 (.mono ["left", "right"] []) none, .setupMachine 2 (.mono [] ["out"]) none,
      .setupMachine 3 (.mono [] ["out"]) none, .attachInput 1 (some 2) (str "out") (str "left"),
      .attachInput 1 (some 3) (str "out") (str "right"),
      .detachInput 1 (some 2) (str "out") (str "right")]
  -- What the machines point at, where their inputs come from, and what is left in `dependant`.
  have heval : (Library.runAll step (fun _ _ _ ↦ true) Space.empty misled).map (fun σ ↦
      (σ.machines.keys, [1, 2, 3].map σ.tight, [1, 2, 3].map (fun d ↦
          (σ.inputEntries d).map fun l ↦ l.map fun e ↦ (σ.signals e.2).originator),
        (σ.internalDisconnectAndDestroy 2).bind fun r ↦ r.2.machines[1]?.map fun x ↦
          decide (2 ∈ x.dependant))) =
      some ([1, 2, 3], [[], [], []], [some [2, 3], some [], some []], some true) := by
    decide +kernel
  obtain ⟨σ, hσ, h⟩ := Option.map_eq_some_iff.mp heval
  obtain ⟨hkeys, htight, hinput, hleft⟩ : _ ∧ _ ∧ _ ∧ _ := by simpa only [Prod.mk.injEq] using h
  have hlive : ∀ p, p ∈ σ.machines ↔ p ∈ [1, 2, 3] := fun p ↦ by
    rw [← hkeys, Std.ExtTreeMap.mem_keys]
  have hnone : ∀ p, σ.tight p = [] := by
    intro p
    refine List.eq_nil_iff_forall_not_mem.mpr fun q hq ↦ ?_
    have hp : σ.tight p ∈ [1, 2, 3].map σ.tight :=
      List.mem_map_of_mem ((hlive p).mp (mem_of_tight hq))
    rw [htight] at hp
    simp only [List.mem_cons, List.not_mem_nil, or_false, or_self] at hp
    simp [hp] at hq
  have hpairs : ∀ d l, σ.inputEntries d = some l →
      (l.map fun e ↦ (σ.signals e.2).originator).Nodup := by
    intro d l hl
    have hd : d ∈ σ.machines := by
      by_contra hd
      simp [inputEntries, Std.ExtTreeMap.getElem?_eq_none hd] at hl
    have hmem := List.mem_map_of_mem (f := fun d ↦ (σ.inputEntries d).map fun l ↦
      l.map fun e ↦ (σ.signals e.2).originator) ((hlive d).mp hd)
    rw [hinput, hl] at hmem
    simp only [Option.map_some, List.mem_cons, Option.some.injEq, List.not_mem_nil, or_false,
      or_self] at hmem
    rcases hmem with hmem | hmem
    · rw [hmem]
      decide
    · rw [hmem]
      exact .nil
  obtain ⟨σ', gone, hrun, hgone, _, _, _, hforgets, _⟩ :=
    hall misled σ 2 ((Library.Run.of_runAll hσ).mono fun _ _ _ _ ↦ trivial)
      (tightForest_of_none hnone) hpairs
      ((hlive 2).mpr (by decide))
  rw [hrun] at hleft
  obtain ⟨x, hx, hdep⟩ : ∃ x, σ'.machines[1]? = some x ∧ 2 ∈ x.dependant := by
    simpa using hleft
  exact (hforgets 2 ((hgone 2).mpr (.refl _))).dependant 1 x hx hdep

end Space
end Vuknob
