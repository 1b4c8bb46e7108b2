import ScreenDoc.Proofs.Session.WriteBack

/-!
# The life of a session

Whatever a host does to a session, its tree is one that was made of its document. The state over
which it was made can be told from the operations, and since then only the state of the tree and
what its values show have changed.

## Main definitions

- `ViewTree.Ages` — a tree of which only the state and what its values show have changed
- `Session.renews` — whether an operation makes the views anew
- `Session.madeOver` — the state over which the views were last made
- `Session.AgedFrom` — a session whose tree was made over a state, and has only aged since

## Main results

- `Session.perform_cases` — an operation makes the views anew, or the tree ages
- `Session.AgedFrom.performAll` — the tree of a session after several operations
-/

namespace ScreenDoc

/-! ### Trees that age -/

namespace ViewTree

/-- Whether a tree differs from an earlier one in its state and in what its values show alone. -/
structure Ages (tree later : ViewTree) : Prop where
  screen : later.screen = tree.screen
  actions : later.actions = tree.actions
  diagnostics : later.diagnostics = tree.diagnostics
  views : tree.Matches View.SameFaces later

theorem Ages.refl (tree : ViewTree) : tree.Ages tree :=
  ⟨rfl, rfl, rfl, .ofSame .refl rfl⟩

theorem Ages.trans {a b c : ViewTree} (hab : a.Ages b) (hbc : b.Ages c) : a.Ages c :=
  ⟨hbc.screen.trans hab.screen, hbc.actions.trans hab.actions,
    hbc.diagnostics.trans hab.diagnostics, hab.views.trans .trans hbc.views⟩

theorem Ages.withState (tree : ViewTree) (state : Store) : tree.Ages { tree with state } :=
  ⟨rfl, rfl, rfl, .ofSame .refl rfl⟩

/-- A refresh of several views changes nothing but views. -/
theorem ages_refreshAll (tree : ViewTree) {ids : List ViewId} (hids : ids.Nodup) :
    tree.Ages (tree.refreshAll ids).1 := by
  have hrest : ∀ (ids : List ViewId) (tree : ViewTree),
      (tree.refreshAll ids).1.screen = tree.screen ∧
        (tree.refreshAll ids).1.actions = tree.actions ∧
        (tree.refreshAll ids).1.diagnostics = tree.diagnostics := by
    intro ids
    induction ids with
    | nil => exact fun tree => ⟨rfl, rfl, rfl⟩
    | cons id rest ih => exact fun tree => ih (tree.refresh id).1
  obtain ⟨hscreen, hactions, hdiagnostics⟩ := hrest ids tree
  exact ⟨hscreen, hactions, hdiagnostics, tree.matches_refreshAll hids⟩

end ViewTree

namespace Session

/-! ### Operations -/

/-- Whether an operation makes the views anew. -/
def renews (session : Session) : Operation → Bool
  | .request (.write call) => (session.call call).hasRenewed
  | .request _ => false
  | .settle written =>
    Outcome.hasRenewed ⟨(session.settle written).1, (session.settle written).2, []⟩

/-- The state over which the views were last made after several operations, given the one over which
they were made before. -/
def madeOver (built : Store) (session : Session) : List Operation → Store
  | [] => built
  | operation :: rest =>
    let later := session.perform operation
    madeOver (if session.renews operation then later.state else built) later rest

/-- Whether the views of a session have been made anew. -/
def Renewed (session later : Session) : Prop :=
  session.rulebook.build session.document later.state true = .ok (later.tree, later.index)

/-- Whether the tree of a session has aged. -/
def Aged (session later : Session) : Prop :=
  later.index = session.index ∧ session.tree.Ages later.tree

theorem renewed_of_build {session : Session} {state : Store} {tree : ViewTree}
    {index : DependencyIndex}
    (hbuild : session.rulebook.build session.document state true = .ok (tree, index)) :
    session.Renewed { session with tree, index } := by
  have hstate : tree.state = state := Rulebook.state_of_build hbuild
  show session.rulebook.build session.document tree.state true = .ok (tree, index)
  rw [hstate, hbuild]

theorem renewed_of_renew {session later : Session} (h : session.renew = .ok later) :
    session.Renewed later := by
  rw [renew] at h
  cases hbuild : session.rulebook.build session.document session.state true with
  | error problem =>
    rw [hbuild] at h
    cases h
  | ok made =>
    rw [hbuild] at h
    cases h
    exact renewed_of_build hbuild

theorem aged_refresh (session : Session) (written : Path) :
    session.Aged (session.refresh written).2 :=
  ⟨rfl, session.tree.ages_refreshAll (session.index.nodup_concerned written)⟩

theorem Effect.renewed_or_aged {session : Session} {text : String} {outcome : Outcome}
    (h : session.Effect text outcome) :
    (outcome.hasRenewed = true ∧ session.Renewed outcome.session) ∨
      (outcome.hasRenewed = false ∧ session.Aged outcome.session) := by
  cases h with
  | refused error => exact .inr ⟨rfl, rfl, .refl _⟩
  | failed hpath hset hneeds hbuild =>
    -- The write has gone through, so the tree ages although the call fails.
    exact .inr ⟨rfl, rfl, .withState _ _⟩
  | renewed hpath hset hneeds hbuild => exact .inl ⟨rfl, renewed_of_build hbuild⟩
  | @refreshed path value update hpath hset hneeds =>
    obtain ⟨hindex, hages⟩ := (session.withState update.store).aged_refresh path
    exact .inr ⟨rfl, hindex, (ViewTree.Ages.withState _ _).trans hages⟩

theorem settle_renewed_or_aged (session : Session) (written : Path) :
    (session.renews (.settle written) = true ∧ session.Renewed (session.settle written).2) ∨
      (session.renews (.settle written) = false ∧ session.Aged (session.settle written).2) := by
  rw [renews, settle, settleGrown]
  split
  · cases hrenew : session.renew with
    | error problem => exact .inr ⟨rfl, rfl, .refl _⟩
    | ok later => exact .inl ⟨rfl, renewed_of_renew hrenew⟩
  · exact .inr ⟨rfl, session.aged_refresh written⟩

/-- An operation makes the views anew, or the tree ages. -/
theorem perform_cases (session : Session) (operation : Operation) :
    (session.renews operation = true ∧ session.Renewed (session.perform operation)) ∨
      (session.renews operation = false ∧ session.Aged (session.perform operation)) := by
  cases operation with
  | settle written => exact session.settle_renewed_or_aged written
  | request request =>
    cases request with
    | write call => exact (session.effect call).renewed_or_aged
    | subscribe => exact .inr ⟨rfl, rfl, .withState _ _⟩
    | unsubscribe id => exact .inr ⟨rfl, rfl, .withState _ _⟩

/-! ### Runs -/

/-- Whether the tree of a session was made of a document over a state, and has only aged since. -/
def AgedFrom (rulebook : Rulebook) (document : Document) (built : Store) (session : Session) :
    Prop :=
  ∃ tree, rulebook.build document built true = .ok (tree, session.index) ∧ tree.Ages session.tree

variable {rulebook : Rulebook} {document : Document} {built : Store} {session : Session}

theorem agedFrom_start (h : start document rulebook = .ok session) :
    AgedFrom rulebook document (.ofValues document.state) session :=
  ⟨session.tree, (build_of_start h).2.2, .refl _⟩

theorem AgedFrom.perform (h : AgedFrom rulebook document built session)
    (hmade : session.Made rulebook document) (operation : Operation) :
    AgedFrom rulebook document
      (if session.renews operation then (session.perform operation).state else built)
      (session.perform operation) := by
  obtain ⟨hrenews, hrenewed⟩ | ⟨hkept, hindex, hages⟩ := session.perform_cases operation
  · -- The state of the new tree is the one that it was made over.
    rw [if_pos hrenews]
    rw [Renewed, hmade.document_eq, hmade.rulebook_eq] at hrenewed
    exact ⟨_, hrenewed, .refl _⟩
  · obtain ⟨tree, hbuild, htree⟩ := h
    rw [hkept, if_neg Bool.false_ne_true]
    exact ⟨tree, hindex ▸ hbuild, htree.trans hages⟩

/-- After several operations, the tree of a session is one that was made over the state named, and
has only aged since. -/
theorem AgedFrom.performAll (h : AgedFrom rulebook document built session)
    (hmade : session.Made rulebook document) (operations : List Operation) :
    AgedFrom rulebook document (session.madeOver built operations)
      (session.performAll operations) := by
  induction operations generalizing built session with
  | nil => exact h
  | cons operation rest ih => exact ih (h.perform hmade operation) (hmade.perform operation)

end Session

end ScreenDoc
