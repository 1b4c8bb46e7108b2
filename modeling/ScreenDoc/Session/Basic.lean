import ScreenDoc.Expansion.Rulebook

/-!
# Sessions

A document with its live tree. A write to the state goes through the session, which brings the tree
up to date.

## Main definitions

- `Session` — a document, its tree and the dependencies of its views
- `Session.start` — the session of a document
- `Session.set`, `Session.toggle` — writes to the state
- `Session.settle` — brings the tree up to date after a write

## Design notes

A write that only concerns values brings the views concerned up to date in place. A write to an
array that shapes a view, or one that lengthens such an array, expands the document anew over the
live state. If that fails, the tree stays as it was, and only the state has changed.
-/

namespace ScreenDoc

/-- Why a write to a session fails. -/
inductive WriteError where
  /-- The state refuses the write, which changes nothing. -/
  | state (error : AccessError)
  /-- The document cannot be expanded over the state after the write. -/
  | expansion (error : Problem)
deriving DecidableEq, Repr

/-- The message of an error. -/
def WriteError.message : WriteError → String
  | .state error => error.message
  | .expansion error => "re-resolution failed: " ++ error.message

/-- What a write did to the tree. -/
structure TreeUpdate where
  /-- The views that depend on the path. In a new tree this is the root. -/
  concerned : List ViewId
  /-- Those of which a value changed. -/
  changed : List ViewId
  /-- Whether the tree is new. -/
  renewed : Bool
deriving DecidableEq, Repr

/-- A document with its live tree. -/
structure Session where
  document : Document
  rulebook : Rulebook
  tree : ViewTree
  index : DependencyIndex

/-- What a write to a session did. -/
structure Session.Outcome where
  /-- The effect on the tree, or why the write fails. -/
  result : Except WriteError TreeUpdate
  /-- The session after the write. -/
  session : Session
  /-- The writes to the state, in order. -/
  changes : List Change

namespace Session

/-- The session of a document. -/
def start (document : Document) (rulebook : Rulebook) : Except Problem Session := do
  let (tree, index) ← rulebook.renderTracked document
  return ⟨document, rulebook, tree, index⟩

/-- The live state. -/
def state (session : Session) : Store :=
  session.tree.state

/-- A session with another state. Its tree is not brought up to date. -/
def withState (session : Session) (state : Store) : Session :=
  { session with tree := { session.tree with state } }

/-- The value at the path that a text writes. -/
def read (session : Session) (text : String) : Option Value :=
  session.state.read text

/-- Whether a write at a path concerns the shape of a view. -/
def isStructural (session : Session) (path : Path) : Bool :=
  !(session.index.reshaped path).isEmpty

/-- Whether a write asks for a new tree: it concerns the shape of a view, or it lengthens an array
that does. -/
def needsRenewal (session : Session) (written : Path) (grown : Option Path) : Bool :=
  session.isStructural written || grown.any session.isStructural

/-- A session with a new tree over the live state. -/
def renew (session : Session) : Except Problem Session := do
  let (tree, index) ← session.rulebook.build session.document session.state true
  return { session with tree, index }

/-- A session of which the views that depend on a path are brought up to date, and what that
changed. -/
def refresh (session : Session) (written : Path) : TreeUpdate × Session :=
  let concerned := session.index.concerned written
  let (tree, changed) := session.tree.refreshAll concerned
  (⟨concerned, changed, false⟩, { session with tree })

/-- Brings the tree up to date after a write at a path that has created or lengthened an array, if
any. -/
def settleGrown (session : Session) (written : Path) (grown : Option Path) :
    Except WriteError TreeUpdate × Session :=
  if session.needsRenewal written grown then
    match session.renew with
    | .ok session => (.ok ⟨[Arena.root], [Arena.root], true⟩, session)
    | .error error => (.error (.expansion error), session)
  else
    let (update, session) := session.refresh written
    (.ok update, session)

/-- Brings the tree up to date after a write at a path. -/
def settle (session : Session) (written : Path) : Except WriteError TreeUpdate × Session :=
  session.settleGrown written none

/-- Writes a value at a path. -/
def setPath (session : Session) (path : Path) (value : Value) : Outcome :=
  match session.state.set path value with
  | .error error => ⟨.error (.state error), session, []⟩
  | .ok update =>
    let grown := session.state.growth? path
    let (result, session) := (session.withState update.store).settleGrown path grown
    ⟨result, session, update.changes⟩

/-- Writes a value at the path that a text writes. -/
def set (session : Session) (text : String) (value : Value) : Outcome :=
  match Path.parse text with
  | .error error => ⟨.error (.state error), session, []⟩
  | .ok path => session.setPath path value

/-- Turns the boolean at the path that a text writes; any other value counts as false. -/
def toggle (session : Session) (text : String) : Outcome :=
  match Path.parse text with
  | .error error => ⟨.error (.state error), session, []⟩
  | .ok path =>
    let on := ((session.state.get? path).bind Value.bool?).getD false
    session.setPath path (.bool !on)

/-- Adds a subscription to the state, and gives its number. -/
def subscribe (session : Session) : Session × Nat :=
  let update := session.state.subscribe
  (session.withState update.store, update.result)

/-- Removes a subscription, and tells whether it was there. -/
def unsubscribe (session : Session) (id : Nat) : Session × Bool :=
  let update := session.state.unsubscribe id
  (session.withState update.store, update.result)

end Session

end ScreenDoc
