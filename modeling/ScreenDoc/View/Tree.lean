import ScreenDoc.View.Arena
import ScreenDoc.View.Problem

/-!
# View trees

All that a renderer has to know of a document: its views, its actions, the live state and the
problems that were met.

## Main definitions

- `ViewTree` — views, actions, state and problems
- `ViewTree.empty` — the tree in the place of a document that cannot be expanded
- `ViewTree.refresh` — a view brought up to date with the state of the tree
-/

namespace ScreenDoc

/-- What a renderer draws and acts on. -/
structure ViewTree where
  arena : Arena
  screen : Screen
  /-- The actions of the document, in ascending order of their names. -/
  actions : List (String × ReadyAction)
  state : Store
  /-- The problems that were met and did not stop the expansion, in order. -/
  diagnostics : List Problem

namespace ViewTree

/-- A tree that holds nothing but a container for its root. -/
def empty : ViewTree :=
  ⟨.ofRoot (.plainContainer .plain), .plain, [], .empty, []⟩

instance : Inhabited ViewTree := ⟨empty⟩

/-- The number of views. -/
def size (tree : ViewTree) : Nat :=
  tree.arena.size

/-- Whether there is no view but the root. -/
def isEmpty (tree : ViewTree) : Bool :=
  tree.size ≤ 1

/-- All views that are linked to the root, each view before its children. -/
def walk (tree : ViewTree) : List ViewId :=
  tree.arena.walk Arena.root

/-- Brings a view up to date with the state of the tree, and tells whether any of its values
changed. -/
def refresh (tree : ViewTree) (id : ViewId) : ViewTree × Bool :=
  let (arena, changed) := tree.arena.refresh tree.state id
  ({ tree with arena }, changed)

/-- Brings several views up to date, one after the other, and lists those of which a value
changed. -/
def refreshAll : ViewTree → List ViewId → ViewTree × List ViewId
  | tree, [] => (tree, [])
  | tree, id :: rest =>
    let (tree, changed) := tree.refresh id
    let (tree, others) := refreshAll tree rest
    (tree, if changed then id :: others else others)

end ViewTree

end ScreenDoc
