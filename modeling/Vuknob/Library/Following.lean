import Mathlib.Logic.Function.Basic
import Vuknob.Library.Replicas
import Vuknob.Library.Runs

/-!
# Followers that come and go

A leader serves requests and publishes to everyone who is connected. Who connects is told where the
leader stands, and everything after that; messages arrive in order and late. Each client has a state
of its own, in which it sees the leader.
-/

namespace Library

variable {L F M A B V : Type}

/-- What the leader and its clients do. -/
structure FollowRules (L F M A B : Type) where
  serve : L → A → Option (L × List M)
  greet : L → List M
  receive : F → M → Option F
  lose : F → F
  act : F → B → Option F

/-- The leader, the clients, and the messages to those that are connected. -/
structure Following (L F M : Type) where
  leader : L
  clients : Nat → F
  pending : Nat → Option (List M)

/-- What can happen: the leader is asked for something, a client connects, disconnects, takes a
message, or does something by itself. -/
inductive FollowEvent (A B : Type)
  | serve (a : A)
  | connect (k : Nat)
  | disconnect (k : Nat)
  | receive (k : Nat)
  | act (k : Nat) (b : B)

namespace Following

variable (R : FollowRules L F M A B)

/-- Nobody is connected. -/
def start (leader : L) (clients : Nat → F) : Following L F M := ⟨leader, clients, fun _ ↦ none⟩

/-- What is published is sent to everyone who is connected. -/
def publish (s : Following L F M) (leader : L) (messages : List M) : Following L F M :=
  { s with leader, pending := fun k ↦ (s.pending k).map (· ++ messages) }

/-- A client with what is on its way to it. -/
def withClient (s : Following L F M) (k : Nat) (client : F) (pending : Option (List M)) :
    Following L F M :=
  { s with
    clients := Function.update s.clients k client
    pending := Function.update s.pending k pending }

/-- A message is taken. -/
def take (s : Following L F M) (k : Nat) : Option (Following L F M) :=
  match s.pending k with
  | some (msg :: messages) =>
    (R.receive (s.clients k) msg).map fun client ↦ s.withClient k client (some messages)
  | _ => none

/-- One event. -/
def step (s : Following L F M) : FollowEvent A B → Option (Unit × Following L F M)
  | .serve a => (R.serve s.leader a).map fun served ↦ ((), s.publish served.1 served.2)
  | .connect k =>
    if (s.pending k).isSome then none
    else some ((), s.withClient k (s.clients k) (some (R.greet s.leader)))
  | .disconnect k =>
    if (s.pending k).isSome then some ((), s.withClient k (R.lose (s.clients k)) none) else none
  | .receive k => (s.take R k).map ((), ·)
  | .act k b =>
    (R.act (s.clients k) b).map fun client ↦ ((), s.withClient k client (s.pending k))

/-- Clients connect only when the leader can greet them. -/
def Permits (ready : L → Prop) (s : Following L F M) : FollowEvent A B → Unit → Prop
  | .connect _, _ => ready s.leader
  | _, _ => True

/-- What is on its way to a client takes what it sees to what the leader has. -/
structure Sound (view : L → V) (see : F → V) (apply : V → M → Option V) (Good : F → Prop)
    (s : Following L F M) : Prop where
  good : ∀ k, Good (s.clients k)
  behind : ∀ k messages, s.pending k = some messages →
    CatchesUp apply (see (s.clients k)) messages (view s.leader)

end Following

/-- Requests publish what they change, a greeting says where the leader stands, and what a client
makes of a message is what it should make of it. -/
structure Follows (R : FollowRules L F M A B) (view : L → V) (see : F → V)
    (apply : V → M → Option V) (Good : F → Prop) (ready : L → Prop) : Prop where
  serve : ∀ {l a l' messages}, R.serve l a = some (l', messages) →
    CatchesUp apply (view l) messages (view l')
  greet : ∀ {l}, ready l → ∀ v, CatchesUp apply v (R.greet l) (view l)
  receive : ∀ {f msg v}, Good f → apply (see f) msg = some v →
    ∃ f', R.receive f msg = some f' ∧ see f' = v ∧ Good f'
  lose : ∀ {f}, Good f → Good (R.lose f)
  act : ∀ {f b f'}, Good f → R.act f b = some f' → Good f' ∧ see f' = see f

namespace Following

variable {R : FollowRules L F M A B} {view : L → V} {see : F → V} {apply : V → M → Option V}
  {Good : F → Prop} {ready : L → Prop} {s s' : Following L F M}

theorem sound_start {clients : Nat → F} (h : ∀ k, Good (clients k)) (leader : L) :
    Sound view see apply Good (start (M := M) leader clients) where
  good := h
  behind k messages hk := by cases hk

/-- What is on its way to a client that is replaced, and to the others. -/
theorem Sound.withClient (h : Sound view see apply Good s) {k : Nat} {client : F}
    {pending : Option (List M)} (hgood : Good client)
    (hbehind : ∀ messages, pending = some messages →
      CatchesUp apply (see client) messages (view s.leader)) :
    Sound view see apply Good (s.withClient k client pending) where
  good j := by
    by_cases hj : j = k
    · subst hj
      simpa [Following.withClient] using hgood
    · simpa [Following.withClient, hj] using h.good j
  behind j messages hmessages := by
    by_cases hj : j = k
    · subst hj
      simp only [Following.withClient, Function.update_self] at hmessages ⊢
      exact hbehind messages hmessages
    · simp only [Following.withClient, Function.update_of_ne hj] at hmessages ⊢
      exact h.behind j messages hmessages

/-- Everyone is told. -/
theorem Sound.publish (h : Sound view see apply Good s) {leader : L} {messages : List M}
    (hpublished : CatchesUp apply (view s.leader) messages (view leader)) :
    Sound view see apply Good (s.publish leader messages) where
  good := h.good
  behind k all hall := by
    obtain ⟨before, hbefore, rfl⟩ := Option.map_eq_some_iff.mp hall
    exact (h.behind k before hbefore).append hpublished

/-- The next message of a client can be taken. -/
theorem Sound.take (h : Sound view see apply Good s)
    (hfollows : Follows R view see apply Good ready) {k : Nat} {msg : M} {messages : List M}
    (hk : s.pending k = some (msg :: messages)) :
    ∃ s', s.take R k = some s' ∧ Sound view see apply Good s' := by
  obtain ⟨next, happly, hnext⟩ := catchesUp_cons.mp (h.behind k _ hk)
  obtain ⟨client, hclient, hsee, hgood⟩ := hfollows.receive (h.good k) happly
  refine ⟨s.withClient k client (some messages), ?_, ?_⟩
  · simp only [Following.take, hk, hclient, Option.map_some]
  · refine h.withClient hgood fun rest hrest ↦ ?_
    obtain rfl := Option.some.inj hrest
    exact hsee ▸ hnext

/-- Every event keeps clients as far behind as the messages on their way say. -/
theorem Sound.step (h : Sound view see apply Good s)
    (hfollows : Follows R view see apply Good ready) {event : FollowEvent A B} {r : Unit}
    (hpermits : Permits ready s event r) (hstep : s.step R event = some (r, s')) :
    Sound view see apply Good s' := by
  cases event with
  | serve a =>
    obtain ⟨⟨leader, messages⟩, hserve, hs⟩ := Option.map_eq_some_iff.mp hstep
    cases hs
    exact h.publish (hfollows.serve hserve)
  | connect k =>
    rw [Following.step] at hstep
    split at hstep
    · cases hstep
    · cases hstep
      refine h.withClient (h.good k) fun messages hmessages ↦ ?_
      obtain rfl := Option.some.inj hmessages
      exact hfollows.greet hpermits _
  | disconnect k =>
    rw [Following.step] at hstep
    split at hstep
    · cases hstep
      exact h.withClient (hfollows.lose (h.good k)) fun messages hmessages ↦ by cases hmessages
    · cases hstep
  | receive k =>
    obtain ⟨t, ht, hs⟩ := Option.map_eq_some_iff.mp hstep
    cases hs
    cases hk : s.pending k with
    | none =>
      simp only [Following.take, hk] at ht
      cases ht
    | some messages =>
      cases messages with
      | nil =>
        simp only [Following.take, hk] at ht
        cases ht
      | cons msg messages =>
        obtain ⟨t', ht', hsound⟩ := h.take hfollows hk
        rw [ht] at ht'
        exact Option.some.inj ht' ▸ hsound
  | act k b =>
    obtain ⟨client, hclient, hs⟩ := Option.map_eq_some_iff.mp hstep
    cases hs
    obtain ⟨hgood, hsee⟩ := hfollows.act (h.good k) hclient
    exact h.withClient hgood fun messages hmessages ↦ hsee ▸ h.behind k messages hmessages

/-- In every run a client can take what is on its way to it, and who has taken everything sees what
the leader has. -/
theorem follows_run (hfollows : Follows R view see apply Good ready) {clients : Nat → F}
    (hgood : ∀ k, Good (clients k)) {leader : L} {events : List (FollowEvent A B)}
    (hrun : Run (Following.step R) (Permits ready) (start leader clients) events s) :
    Sound view see apply Good s ∧
      (∀ k msg messages, s.pending k = some (msg :: messages) →
        ∃ s', s.step R (.receive k) = some ((), s')) ∧
      ∀ k, s.pending k = some [] → see (s.clients k) = view s.leader := by
  have hsound : Sound view see apply Good s := by
    refine hrun.invariant (Sound view see apply Good) (fun s event r s' h hpermits hstep ↦ ?_)
      (sound_start hgood leader)
    exact h.step hfollows hpermits hstep
  refine ⟨hsound, fun k msg messages hk ↦ ?_, fun k hk ↦ ?_⟩
  · obtain ⟨s', hs', -⟩ := hsound.take hfollows hk
    exact ⟨s', by rw [Following.step, hs']; rfl⟩
  · exact catchesUp_nil.mp (hsound.behind k [] hk)

end Following

end Library
