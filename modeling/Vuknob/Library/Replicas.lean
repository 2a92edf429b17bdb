/-!
# A replica that is told about changes

A leader publishes its changes as messages; a follower applies them one by one, each of them if it
can. The follower is behind by the messages that are under way.
-/

namespace Library

variable {V M : Type} {apply : V → M → Option V}

/-- The messages under way take what the follower has to what the leader has. -/
def CatchesUp (apply : V → M → Option V) (follower : V) (pending : List M) (leader : V) : Prop :=
  pending.foldlM apply follower = some leader

@[simp]
theorem catchesUp_nil {follower leader : V} :
    CatchesUp apply follower [] leader ↔ follower = leader :=
  Option.some.injEq .. ▸ Iff.rfl

theorem catchesUp_cons {follower leader : V} {msg : M} {pending : List M} :
    CatchesUp apply follower (msg :: pending) leader ↔
      ∃ next, apply follower msg = some next ∧ CatchesUp apply next pending leader := by
  rw [CatchesUp, List.foldlM_cons]
  exact Option.bind_eq_some_iff

/-- What the leader has published since is added to what is under way. -/
theorem CatchesUp.append {follower leader leader' : V} {pending published : List M}
    (h : CatchesUp apply follower pending leader)
    (hpublished : CatchesUp apply leader published leader') :
    CatchesUp apply follower (pending ++ published) leader' := by
  rw [CatchesUp, List.foldlM_append, h]
  exact hpublished

/-- The next message can be applied, and the follower is one message less behind. -/
theorem CatchesUp.consume {follower leader : V} {messages : List M} {msg : M} {n : Nat}
    (h : CatchesUp apply follower (messages.drop n) leader) (hmsg : messages[n]? = some msg) :
    ∃ next, apply follower msg = some next ∧
      CatchesUp apply next (messages.drop (n + 1)) leader := by
  obtain ⟨hlt, rfl⟩ := List.getElem?_eq_some_iff.mp hmsg
  rw [List.drop_eq_getElem_cons hlt] at h
  exact catchesUp_cons.mp h

end Library
