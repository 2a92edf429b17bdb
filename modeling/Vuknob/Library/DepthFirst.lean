import Mathlib.Logic.Relation
import Mathlib.Data.List.Chain
import Mathlib.Data.List.Nodup
import Mathlib.Data.List.Perm.Subperm

/-!
# Depth-first search over successor lists

A finite directed graph given by a successor list for each vertex. Two recursive
searches are treated: `visit`, which prepends every new vertex to the list of the
vertices seen so far before it descends, and `search`, which keeps no marks at all.
Both recurse with explicit fuel; `none` means that the fuel ran out.
-/

namespace Library

universe u

variable {α : Type u}

/-- Vertex `a` has an edge to vertex `b`. -/
def Edge (succ : α → List α) (a b : α) : Prop := b ∈ succ a

/-- Vertex `b` is `a` itself or reached from it along edges. -/
abbrev Reach (succ : α → List α) : α → α → Prop := Relation.ReflTransGen (Edge succ)

/-- No vertex is reached from itself along one or more edges. -/
def Acyclic (succ : α → List α) : Prop := ∀ a, ¬ Relation.TransGen (Edge succ) a a

/-- A graph with more edges reaches more. -/
theorem reach_mono {succ succ' : α → List α} (h : ∀ a, ∀ b ∈ succ a, b ∈ succ' a) {a b : α}
    (hab : Reach succ a b) : Reach succ' a b :=
  hab.lift id h

/-- An edge followed by a walk back would be a cycle. -/
theorem Acyclic.not_reach_of_edge {succ : α → List α} (h : Acyclic succ) {a b : α}
    (hab : Edge succ a b) : ¬ Reach succ b a := fun hba ↦
  h a (Relation.TransGen.head' hab hba)

/-- Two vertices that reach each other are equal. -/
theorem Acyclic.eq_of_reach {succ : α → List α} (h : Acyclic succ) {a b : α}
    (hab : Reach succ a b) (hba : Reach succ b a) : a = b := by
  rcases Relation.reflTransGen_iff_eq_or_transGen.mp hab with he | ht
  · exact he.symm
  · exact False.elim (h a (ht.trans_left hba))

/-- A graph with fewer edges than an acyclic one is acyclic. -/
theorem Acyclic.mono {succ succ' : α → List α} (h : Acyclic succ)
    (hs : ∀ a b, Edge succ' a b → Edge succ a b) : Acyclic succ' := fun a ha ↦
  h a (Relation.TransGen.mono hs _ _ ha)

/-- Adding edges out of one vertex `a` keeps a graph acyclic when no new successor
reaches `a`. -/
theorem Acyclic.of_new_edges {succ succ' : α → List α} (h : Acyclic succ) {a b : α}
    (hs : ∀ x y, Edge succ' x y → Edge succ x y ∨ (x = a ∧ y = b))
    (hb : ¬ Reach succ b a) : Acyclic succ' := by
  -- A walk of the new graph is a walk of the old one, or it uses the new edge:
  -- then the old graph leads from its start to `a` and from `b` to its end.
  have key : ∀ x y, Relation.TransGen (Edge succ') x y →
      Relation.TransGen (Edge succ) x y ∨ (Reach succ x a ∧ Reach succ b y) := by
    intro x y hw
    induction hw with
    | single hxy =>
      rcases hs _ _ hxy with ho | ⟨rfl, rfl⟩
      · exact .inl (.single ho)
      · exact .inr ⟨.refl, .refl⟩
    | tail _ hyz ih =>
      rcases hs _ _ hyz with ho | ⟨rfl, rfl⟩
      · rcases ih with ih | ⟨h1, h2⟩
        · exact .inl (ih.tail ho)
        · exact .inr ⟨h1, h2.tail ho⟩
      · rcases ih with ih | ⟨_, h2⟩
        · exact .inr ⟨ih.to_reflTransGen, .refl⟩
        · exact False.elim (hb h2)
  intro x hx
  rcases key x x hx with ho | ⟨h1, h2⟩
  · exact h x ho
  · exact hb (h2.trans h1)

/-! ### The marking search -/

section Visit

variable [DecidableEq α]

/-- Depth-first visit of `a`: a vertex already seen is skipped, a new one is put in
front of the list before its successors are visited in order. -/
def visit (succ : α → List α) : Nat → α → List α → Option (List α)
  | 0, _, _ => none
  | fuel + 1, a, seen =>
    if a ∈ seen then some seen
    else (succ a).foldlM (fun seen b ↦ visit succ fuel b seen) (a :: seen)

/-- `b` is a successor of `a`, and the successors listed before it are in `older`. -/
def StepAfter (succ : α → List α) (older : List α) (b a : α) : Prop :=
  b ∈ succ a ∧ ∀ c ∈ (succ a).takeWhile (· ≠ b), c ∈ older

/-- The situation in which a visit from `root` puts `x` in front of `older`: `path` is
the recursion stack above `x`, and every other vertex of `older` is finished. -/
structure Frontier (succ : α → List α) (root x : α) (older path : List α) : Prop where
  fresh : x ∉ older
  stack : path ⊆ older
  walk : List.IsChain (StepAfter succ older) (x :: path)
  last : (x :: path).getLast (by simp) = root
  finished : ∀ y ∈ older, y ∉ path → ∀ z ∈ succ y, z ∈ older

/-- Every entry of `seen` was put there by a visit from `root`. -/
def Built (succ : α → List α) (root : α) : List α → Prop
  | [] => True
  | x :: older => (∃ path, Frontier succ root x older path) ∧ Built succ root older

private theorem stepAfter_mono {succ : α → List α} {older older' : List α}
    (h : older ⊆ older') {b a : α} (hb : StepAfter succ older b a) :
    StepAfter succ older' b a :=
  ⟨hb.1, fun c hc ↦ h (hb.2 c hc)⟩

private theorem stepAfter_of_split {succ : α → List α} {cur done rest : List α} {a b : α}
    (hs : succ a = done ++ b :: rest) (hd : done ⊆ cur) : StepAfter succ cur b a := by
  refine ⟨by simp [hs], ?_⟩
  intro c hc
  rw [hs, List.takeWhile_append] at hc
  split at hc
  · simp only [ne_eq, not_true_eq_false, decide_false, Bool.false_eq_true,
      not_false_eq_true, List.takeWhile_cons_of_neg, List.append_nil] at hc
    exact hd hc
  · exact hd ((List.takeWhile_sublist _).subset hc)

/-- What the visit of `a` promises while `path` is the recursion stack. -/
structure Visited (succ : α → List α) (root : α) (seen path out : List α) : Prop where
  built : Built succ root out
  extends_seen : seen ⊆ out
  finished : ∀ y ∈ out, y ∉ path → ∀ z ∈ succ y, z ∈ out

/-- A visit extends the list by vertices pushed in the described situation, and leaves
everything that is not on the stack finished. -/
theorem visit_spec (succ : α → List α) (root : α) (fuel : Nat) (a : α)
    (seen path out : List α) (hv : visit succ fuel a seen = some out)
    (hb : Built succ root seen) (hp : path ⊆ seen)
    (hw : List.IsChain (StepAfter succ seen) (a :: path))
    (hl : (a :: path).getLast (by simp) = root)
    (hf : ∀ y ∈ seen, y ∉ path → ∀ z ∈ succ y, z ∈ seen) :
    Visited succ root seen path out ∧ a ∈ out := by
  induction fuel generalizing a seen path out with
  | zero => simp [visit] at hv
  | succ fuel ih =>
    rw [visit] at hv
    split at hv
    · next ha =>
      obtain rfl := Option.some.inj hv
      exact ⟨⟨hb, fun _ h ↦ h, hf⟩, ha⟩
    · next ha =>
      -- The loop over the successors: `done` has been visited, `cur` is the list so far.
      have loop : ∀ (rest done cur : List α), succ a = done ++ rest → done ⊆ cur →
          Built succ root cur → a :: seen ⊆ cur →
          (∀ y ∈ cur, y ∉ a :: path → ∀ z ∈ succ y, z ∈ cur) →
          rest.foldlM (fun seen b ↦ visit succ fuel b seen) cur = some out →
          Visited succ root cur (a :: path) out ∧ succ a ⊆ out := by
        intro rest
        induction rest with
        | nil =>
          intro done cur hs hd hc _ hfin hr
          obtain rfl : cur = out := by simpa using hr
          exact ⟨⟨hc, fun _ h ↦ h, hfin⟩, by rw [hs, List.append_nil]; exact hd⟩
        | cons b rest ihr =>
          intro done cur hs hd hc hsub hfin hr
          rw [List.foldlM_cons] at hr
          obtain ⟨mid, hm, hr⟩ := Option.bind_eq_some_iff.mp hr
          have hsc : seen ⊆ cur := fun _ h ↦ hsub (List.mem_cons_of_mem _ h)
          have hstep : List.IsChain (StepAfter succ cur) (b :: a :: path) := by
            rw [List.isChain_cons_cons]
            exact ⟨stepAfter_of_split hs hd, hw.imp fun _ _ h ↦ stepAfter_mono hsc h⟩
          obtain ⟨hvis, hbm⟩ := ih b cur (a :: path) mid hm hc
            (fun y hy ↦ by
              rcases List.mem_cons.mp hy with rfl | hy
              · exact hsub (by simp)
              · exact hsc (hp hy))
            hstep (by rw [List.getLast_cons (by simp)]; exact hl) hfin
          obtain ⟨hrest, hall⟩ := ihr (done ++ [b]) mid (by simp [hs])
            (fun y hy ↦ by
              rcases List.mem_append.mp hy with hy | hy
              · exact hvis.extends_seen (hd hy)
              · rw [List.mem_singleton.mp hy]; exact hbm)
            hvis.built (fun y hy ↦ hvis.extends_seen (hsub hy)) hvis.finished hr
          exact ⟨⟨hrest.built, fun y hy ↦ hrest.extends_seen (hvis.extends_seen hy),
            hrest.finished⟩, hall⟩
      have hpush : Built succ root (a :: seen) := ⟨⟨path, ha, hp, hw, hl, hf⟩, hb⟩
      obtain ⟨hout, hsucc⟩ := loop (succ a) [] (a :: seen) (by simp) (by simp) hpush
        (fun _ h ↦ h)
        (fun y hy hny z hz ↦ by
          simp only [List.mem_cons, not_or] at hy hny
          exact List.mem_cons_of_mem _ (hf y (hy.resolve_left hny.1) hny.2 z hz))
        hv
      refine ⟨⟨hout.built, fun y hy ↦ hout.extends_seen (List.mem_cons_of_mem _ hy), ?_⟩,
        hout.extends_seen (by simp)⟩
      intro y hy hny z hz
      by_cases hya : y = a
      · subst y
        exact hsucc hz
      · exact hout.finished y hy (by simp [hya, hny]) z hz

private theorem visit_ne_none (succ : α → List α) (verts : List α)
    (hc : ∀ x ∈ verts, ∀ y ∈ succ x, y ∈ verts) (fuel : Nat) (a : α) (seen : List α)
    (ha : a ∈ verts) (hf : (verts.filter (· ∉ seen)).length < fuel) :
    ∃ out, visit succ fuel a seen = some out ∧ seen ⊆ out := by
  induction fuel generalizing a seen with
  | zero => omega
  | succ fuel ih =>
    rw [visit]
    split
    · exact ⟨seen, rfl, fun _ h ↦ h⟩
    · next hn =>
      have hlt : (verts.filter (· ∉ a :: seen)).length < (verts.filter (· ∉ seen)).length := by
        have hsub : (verts.filter (· ∉ a :: seen)).Sublist (verts.filter (· ∉ seen)) :=
          List.monotone_filter_right _ (fun x hx ↦ by simp_all)
        apply Nat.lt_of_le_of_ne hsub.length_le
        intro he
        have hm : a ∈ verts.filter (· ∉ seen) := by simp [ha, hn]
        rw [← hsub.eq_of_length he] at hm
        simp at hm
      have loop : ∀ (rest cur : List α), rest ⊆ verts → a :: seen ⊆ cur →
          ∃ out, rest.foldlM (fun seen b ↦ visit succ fuel b seen) cur = some out ∧
            cur ⊆ out := by
        intro rest
        induction rest with
        | nil => exact fun cur _ _ ↦ ⟨cur, rfl, fun _ h ↦ h⟩
        | cons b rest ihr =>
          intro cur hr hcur
          have hle : (verts.filter (· ∉ cur)).length ≤
              (verts.filter (· ∉ a :: seen)).length :=
            (List.monotone_filter_right _ (fun x hx ↦ by
              simp only [decide_eq_true_eq] at hx ⊢
              exact fun h ↦ hx (hcur h))).length_le
          obtain ⟨mid, hm, hsub⟩ := ih b cur (hr (by simp)) (by omega)
          obtain ⟨out, ho, hsub'⟩ := ihr mid (fun x hx ↦ hr (List.mem_cons_of_mem _ hx))
            (fun x hx ↦ hsub (hcur hx))
          exact ⟨out, by rw [List.foldlM_cons, hm]; exact ho, fun x hx ↦ hsub' (hsub hx)⟩
      obtain ⟨out, ho, hsub⟩ := loop (succ a) (a :: seen) (hc a ha) (fun _ h ↦ h)
      exact ⟨out, ho, fun x hx ↦ hsub (List.mem_cons_of_mem _ hx)⟩

/-- The marking search ends on every finite graph, with or without cycles: more fuel
than there are vertices is always enough. -/
theorem visit_returns (succ : α → List α) (verts : List α)
    (hc : ∀ x ∈ verts, ∀ y ∈ succ x, y ∈ verts) (fuel : Nat) (root : α) (seen : List α)
    (hr : root ∈ verts) (hf : verts.length < fuel) :
    ∃ out, visit succ fuel root seen = some out := by
  obtain ⟨out, ho, _⟩ := visit_ne_none succ verts hc fuel root seen hr
    (Nat.lt_of_le_of_lt (List.length_filter_le _ _) hf)
  exact ⟨out, ho⟩

private theorem reach_of_walk {succ : α → List α} {older path : List α} {x : α}
    (hw : List.IsChain (StepAfter succ older) (x :: path)) (y : α) (hy : y ∈ x :: path) :
    Reach succ y x := by
  induction path generalizing x with
  | nil => rw [List.mem_singleton.mp hy]
  | cons p path ih =>
    rw [List.isChain_cons_cons] at hw
    rcases List.mem_cons.mp hy with rfl | hy
    · exact .refl
    · exact (ih hw.2 hy).tail hw.1.1

/-- A pushed vertex is reached from the root. -/
theorem Frontier.reach {succ : α → List α} {root x : α} {older path : List α}
    (h : Frontier succ root x older path) : Reach succ root x :=
  reach_of_walk h.walk root (by rw [← h.last]; exact List.getLast_mem _)

theorem Built.nodup {succ : α → List α} {root : α} {seen : List α}
    (h : Built succ root seen) : seen.Nodup := by
  induction seen with
  | nil => exact List.nodup_nil
  | cons x older ih =>
    obtain ⟨⟨path, hx⟩, ho⟩ := h
    exact List.nodup_cons.mpr ⟨hx.fresh, ih ho⟩

theorem Built.reach {succ : α → List α} {root : α} {seen : List α}
    (h : Built succ root seen) (x : α) (hx : x ∈ seen) : Reach succ root x := by
  induction seen with
  | nil => cases hx
  | cons y older ih =>
    obtain ⟨⟨path, hy⟩, ho⟩ := h
    rcases List.mem_cons.mp hx with rfl | hx
    · exact hy.reach
    · exact ih ho hx

theorem Built.of_append {succ : α → List α} {root : α} {newer older : List α}
    (h : Built succ root (newer ++ older)) : Built succ root older := by
  induction newer with
  | nil => exact h
  | cons x newer ih => exact ih h.2

/-- A whole visit lists its vertices in the described order, and lists exactly the
vertices that the root reaches. -/
theorem visit_root {succ : α → List α} {root : α} {fuel : Nat} {out : List α}
    (hv : visit succ fuel root [] = some out) :
    Built succ root out ∧ ∀ x, x ∈ out ↔ Reach succ root x := by
  obtain ⟨hvis, hroot⟩ := visit_spec succ root fuel root [] [] out hv trivial
    (fun _ h ↦ h) (by simp) rfl (by simp)
  refine ⟨hvis.built, fun x ↦ ⟨hvis.built.reach x, ?_⟩⟩
  intro hx
  induction hx with
  | refl => exact hroot
  | tail _ hyz ih => exact hvis.finished _ ih (by simp) _ hyz

/-! ### When the visit order is a topological order -/

/-- Every successor of a listed vertex stands in front of it. -/
def Topological (succ : α → List α) (order : List α) : Prop :=
  ∀ newer x older, order = newer ++ x :: older → ∀ y ∈ succ x, y ∈ newer

/-- `u` reaches `w`, and among the successors of `u` one that leads to `v` is listed
before `v` itself. -/
def Through (succ : α → List α) (u w v : α) : Prop :=
  Reach succ u w ∧ ∃ c ∈ (succ u).takeWhile (· ≠ v), Reach succ c v

/-- Whenever two vertices below the root share a successor `v`, one of them reaches the
other and gets to `v` on a longer way first. -/
def Nested (succ : α → List α) (root : α) : Prop :=
  ∀ u w v, Reach succ root u → Reach succ root w → u ≠ w → v ∈ succ u → v ∈ succ w →
    Through succ u w v ∨ Through succ w u v

/-- A successor listed before the one that is being pushed never leads to it. -/
theorem Frontier.not_reach_before {succ : α → List α} (hac : Acyclic succ)
    {root v p : α} {older path : List α} (h : Frontier succ root v older (p :: path))
    (c : α) (hc : c ∈ (succ p).takeWhile (· ≠ v)) : ¬ Reach succ c v := by
  have hstep := (List.isChain_cons_cons.mp h.walk).1
  have hpath := (List.isChain_cons_cons.mp h.walk).2
  have hpc : Edge succ p c := (List.takeWhile_sublist _).subset hc
  -- Everything below `c` is already listed: a vertex of the stack there would close a cycle.
  have hall : ∀ y, Reach succ c y → y ∈ older := by
    intro y hy
    induction hy with
    | refl => exact hstep.2 c hc
    | tail hcy hyz ih =>
      refine h.finished _ ih ?_ _ hyz
      intro hm
      exact hac.not_reach_of_edge hpc (hcy.trans (reach_of_walk hpath _ hm))
  exact fun hcv ↦ h.fresh (hall v hcv)

private theorem closed_upward {succ : α → List α} (hac : Acyclic succ) {root : α}
    (hn : Nested succ root) {seen : List α} (hb : Built succ root seen) :
    ∀ y ∈ seen, ∀ x, Reach succ root x → Reach succ x y → x ∈ seen := by
  induction seen with
  | nil => exact fun y hy ↦ absurd hy (by simp)
  | cons v older ih =>
    obtain ⟨⟨path, hv⟩, ho⟩ := hb
    intro y hy x hrx hxy
    rcases List.mem_cons.mp hy with rfl | hy
    · rcases Relation.ReflTransGen.cases_tail hxy with rfl | ⟨z, hxz, hzv⟩
      · exact List.mem_cons_self
      · cases path with
        | nil =>
          have hroot : y = root := by simpa using hv.last
          subst hroot
          rw [hac.eq_of_reach hrx hxy]
          exact List.mem_cons_self
        | cons p path =>
          have hp : p ∈ older := hv.stack (by simp)
          have hpv : y ∈ succ p := (List.isChain_cons_cons.mp hv.walk).1.1
          have hup : Reach succ z p → x ∈ y :: older := fun hzp ↦
            List.mem_cons_of_mem _ (ih ho p hp x hrx (hxz.trans hzp))
          by_cases hzp : z = p
          · exact hup (hzp ▸ .refl)
          · rcases hn z p y (hrx.trans hxz) (ho.reach p hp) hzp hzv hpv with ht | ht
            · exact hup ht.1
            · obtain ⟨_, c, hc, hcv⟩ := ht
              exact False.elim (hv.not_reach_before hac c hc hcv)
    · exact List.mem_cons_of_mem _ (ih ho y hy x hrx hxy)

private theorem topological_of_nested {succ : α → List α} (hac : Acyclic succ) {root : α}
    (hn : Nested succ root) {order : List α} (hb : Built succ root order)
    (hm : ∀ x, x ∈ order ↔ Reach succ root x) : Topological succ order := by
  rintro newer x older rfl y hy
  have hx : Reach succ root x := (hm x).mp (by simp)
  have hmem : y ∈ newer ++ x :: older := (hm y).mpr (hx.tail hy)
  rcases List.mem_append.mp hmem with h | h
  · exact h
  -- The listed part from `y` on contains all that reaches `y`, hence `x` behind it.
  · obtain ⟨mid, rest, hsplit⟩ := List.append_of_mem h
    have hby : Built succ root (y :: rest) := by
      rw [hsplit, ← List.append_assoc] at hb
      exact hb.of_append
    have hyx : x ∈ y :: rest := closed_upward hac hn hby y (by simp) x hx (.single hy)
    have hnd := hb.of_append.nodup
    cases mid with
    | nil =>
      obtain ⟨rfl, -⟩ := List.cons.inj hsplit
      exact False.elim (hac x (.single hy))
    | cons z mid =>
      obtain ⟨rfl, rfl⟩ := List.cons.inj hsplit
      exact False.elim ((List.nodup_cons.mp hnd).1 (List.mem_append_right _ hyx))

private theorem mem_takeWhile_or {l : List α} {a b : α} (ha : a ∈ l) (hne : a ≠ b)
    (hb : b ∈ l) : a ∈ l.takeWhile (· ≠ b) ∨ b ∈ l.takeWhile (· ≠ a) := by
  induction l with
  | nil => cases ha
  | cons x l ih =>
    by_cases hxa : x = a
    · subst hxa
      exact .inl (by simp [hne])
    · by_cases hxb : x = b
      · subst hxb
        exact .inr (by simp [hxa])
      · have ha' : a ∈ l := (List.mem_cons.mp ha).resolve_left (Ne.symm hxa)
        have hb' : b ∈ l := (List.mem_cons.mp hb).resolve_left (Ne.symm hxb)
        simpa [List.takeWhile_cons, hxa, hxb, Ne.symm hxa, Ne.symm hxb] using ih ha' hb'

/-- On the stack of a push, a vertex further away from the pushed one passes through any
nearer one, and got there before it looked at the pushed vertex. -/
private theorem through_of_stack {succ : α → List α} {root v : α}
    {older near far : List α} {w u : α}
    (h : Frontier succ root v older (near ++ w :: far)) (hu : u ∈ far)
    (huv : v ∈ succ u) : Through succ u w v := by
  obtain ⟨mid, rest, rfl⟩ := List.append_of_mem hu
  have hw : List.IsChain (StepAfter succ older) ((v :: near ++ w :: mid) ++ u :: rest) := by
    simpa using h.walk
  obtain ⟨hfront, hback, hmeet⟩ := List.isChain_append.mp hw
  -- `c` is the vertex right below `u` on the stack.
  obtain ⟨c, hc⟩ : ∃ c, (w :: mid).getLast? = some c :=
    ⟨_, List.getLast?_eq_some_getLast (by simp)⟩
  have hcu : StepAfter succ older c u :=
    hmeet c (by rw [List.getLast?_append, hc]; rfl) u (by simp)
  have hcm : c ∈ w :: mid := List.mem_of_getLast? hc
  have hcv : Reach succ c v := reach_of_walk h.walk c (by simp at hcm ⊢; tauto)
  have hfw : List.IsChain (StepAfter succ older) (w :: mid) :=
    (List.isChain_append.mp hfront).2.1
  refine ⟨.head hcu.1 (reach_of_walk hfw c hcm), c, ?_, hcv⟩
  have hne : c ≠ v := by
    rintro rfl
    exact h.fresh (h.stack (by simp at hcm ⊢; tauto))
  rcases mem_takeWhile_or hcu.1 hne huv with hlt | hgt
  · exact hlt
  · exact False.elim (h.fresh (hcu.2 v hgt))

private theorem nested_of_topological {succ : α → List α} {root : α} {order : List α}
    (hb : Built succ root order) (hm : ∀ x, x ∈ order ↔ Reach succ root x)
    (ht : Topological succ order) : Nested succ root := by
  intro u w v hu hw huw huv hwv
  obtain ⟨newer, older, hsplit⟩ := List.append_of_mem ((hm v).mpr (hu.tail huv))
  have hbv : Built succ root (v :: older) := by rw [hsplit] at hb; exact hb.of_append
  obtain ⟨⟨path, hv⟩, _⟩ := hbv
  -- A vertex that lists `v` stands behind it, is unfinished there, hence on the stack.
  have hstack : ∀ x, Reach succ root x → v ∈ succ x → x ∈ path := by
    intro x hx hxv
    by_contra hnp
    apply hv.fresh
    refine hv.finished x ?_ hnp v hxv
    obtain ⟨a, b, hab⟩ := List.append_of_mem ((hm x).mpr hx)
    have hva : v ∈ a := ht a x b hab v hxv
    obtain ⟨a1, a2, rfl⟩ := List.append_of_mem hva
    have hnd := hb.nodup
    have heq : newer ++ v :: older = a1 ++ v :: (a2 ++ x :: b) := by
      rw [← hsplit, hab]; simp
    rw [hsplit] at hnd
    obtain ⟨-, -, hold⟩ := (List.append_cons_inj_of_notMem
      (fun h ↦ (List.nodup_append.mp hnd).2.2 v h v (by simp) rfl) hv.fresh).mp heq
    rw [hold]
    simp
  obtain ⟨near, far, hpath⟩ := List.append_of_mem (hstack w hw hwv)
  subst hpath
  rcases List.mem_append.mp (hstack u hu huv) with hn | hf
  · obtain ⟨n1, n2, rfl⟩ := List.append_of_mem hn
    have hv' : Frontier succ root v older (n1 ++ u :: (n2 ++ w :: far)) := by simpa using hv
    exact .inr (through_of_stack hv' (by simp) hwv)
  · rcases List.mem_cons.mp hf with rfl | hf
    · exact absurd rfl huw
    · exact .inl (through_of_stack hv hf huv)

/-- On an acyclic graph the visit order is topological exactly when the graph is nested. -/
theorem visit_topological_iff {succ : α → List α} (hac : Acyclic succ) {root : α}
    {fuel : Nat} {out : List α} (hv : visit succ fuel root [] = some out) :
    Topological succ out ↔ Nested succ root := by
  obtain ⟨hb, hm⟩ := visit_root hv
  exact ⟨nested_of_topological hb hm, fun hn ↦ topological_of_nested hac hn hb hm⟩

end Visit

/-! ### The search without marks -/

private theorem anyM_true {f : α → Option Bool} {l : List α} (h : l.anyM f = some true) :
    ∃ a ∈ l, f a = some true := by
  induction l with
  | nil => simp [List.anyM] at h
  | cons x l ih =>
    rw [List.anyM] at h
    obtain ⟨b, hb, hr⟩ := Option.bind_eq_some_iff.mp h
    cases b with
    | true => exact ⟨x, by simp, hb⟩
    | false =>
      obtain ⟨a, ha, hf⟩ := ih hr
      exact ⟨a, by simp [ha], hf⟩

private theorem anyM_false {f : α → Option Bool} {l : List α} (h : l.anyM f = some false) :
    ∀ a ∈ l, f a = some false := by
  induction l with
  | nil => simp
  | cons x l ih =>
    rw [List.anyM] at h
    obtain ⟨b, hb, hr⟩ := Option.bind_eq_some_iff.mp h
    cases b with
    | true => simp at hr
    | false =>
      intro a ha
      rcases List.mem_cons.mp ha with rfl | ha
      · exact hb
      · exact ih hr a ha

private theorem anyM_returns {f : α → Option Bool} {l : List α}
    (h : ∀ a ∈ l, ∃ b, f a = some b) : ∃ b, l.anyM f = some b := by
  induction l with
  | nil => exact ⟨false, rfl⟩
  | cons x l ih =>
    obtain ⟨b, hb⟩ := h x (by simp)
    rw [List.anyM, hb]
    cases b with
    | true => exact ⟨true, rfl⟩
    | false => exact ih fun a ha ↦ h a (by simp [ha])

section Search

variable [DecidableEq α]

/-- Look for `target` from `a`: at `a`, then among its successors, then below each of
them in order. Vertices reached along several ways are searched several times. -/
def search (succ : α → List α) (target : α) : Nat → α → Option Bool
  | 0, _ => none
  | fuel + 1, a =>
    if target = a then some true
    else if target ∈ succ a then some true
    else (succ a).anyM (search succ target fuel)

/-- A search that returns has decided reachability. -/
theorem search_iff {succ : α → List α} {target : α} {fuel : Nat} {a : α} {b : Bool}
    (h : search succ target fuel a = some b) : b = true ↔ Reach succ a target := by
  induction fuel generalizing a b with
  | zero => simp [search] at h
  | succ fuel ih =>
    rw [search] at h
    split at h
    · next he =>
      obtain rfl := Option.some.inj h
      exact ⟨fun _ ↦ he ▸ .refl, fun _ ↦ rfl⟩
    · next hne =>
      split at h
      · next hm =>
        obtain rfl := Option.some.inj h
        exact ⟨fun _ ↦ .single hm, fun _ ↦ rfl⟩
      · cases b with
        | true =>
          obtain ⟨c, hc, hcs⟩ := anyM_true h
          exact ⟨fun _ ↦ .head hc ((ih hcs).mp rfl), fun _ ↦ rfl⟩
        | false =>
          refine ⟨fun h ↦ (by cases h), fun hr ↦ ?_⟩
          rcases Relation.ReflTransGen.cases_head hr with he | ⟨c, hc, hct⟩
          · exact absurd he.symm hne
          · exact (ih (anyM_false h c hc)).mpr hct

private theorem search_on_path {succ : α → List α} (hac : Acyclic succ) {verts : List α}
    (hc : ∀ x ∈ verts, ∀ y ∈ succ x, y ∈ verts) (target : α) (fuel : Nat) (a : α)
    (path : List α) (hn : (a :: path).Nodup) (hs : a :: path ⊆ verts)
    (hr : ∀ x ∈ path, Reach succ x a) (hf : verts.length < fuel + (a :: path).length) :
    ∃ b, search succ target fuel a = some b := by
  induction fuel generalizing a path with
  | zero =>
    have hle := (List.subperm_of_subset hn hs).length_le
    omega
  | succ fuel ih =>
    rw [search]
    split
    · exact ⟨true, rfl⟩
    · split
      · exact ⟨true, rfl⟩
      · apply anyM_returns
        intro b hb
        -- A successor of `a` on the path would close a cycle.
        have hup : ∀ x ∈ a :: path, Reach succ x a := by
          intro x hx
          rcases List.mem_cons.mp hx with rfl | hx
          · exact .refl
          · exact hr x hx
        apply ih b (a :: path)
        · exact List.nodup_cons.mpr ⟨fun hm ↦ hac.not_reach_of_edge hb (hup b hm), hn⟩
        · exact List.cons_subset.mpr ⟨hc a (hs (by simp)) b hb, hs⟩
        · exact fun x hx ↦ (hup x hx).tail hb
        · simp only [List.length_cons] at hf ⊢
          omega

/-- On a finite acyclic graph the search without marks returns when the fuel covers the
number of vertices. -/
theorem search_returns {succ : α → List α} (hac : Acyclic succ) {verts : List α}
    (hc : ∀ x ∈ verts, ∀ y ∈ succ x, y ∈ verts) (target : α) (fuel : Nat) (a : α)
    (ha : a ∈ verts) (hf : verts.length ≤ fuel) :
    ∃ b, search succ target fuel a = some b :=
  search_on_path hac hc target fuel a [] (by simp) (by simpa using ha) (by simp)
    (by simp only [List.length_cons, List.length_nil]; omega)

end Search
end Library
