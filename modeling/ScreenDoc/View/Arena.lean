import ScreenDoc.View.Basic
import ScreenDoc.View.Dependency

/-!
# The arena of views

All views of a tree in the order in which they were inserted, with the links between them.

## Main definitions

- `Arena` — views with their parents and children; the first view is the root
- `Arena.insert`, `Arena.attach`, `Arena.insertUnder` — adding and linking views
- `Arena.walk`, `Arena.ancestors` — the views below and above a view

## Design notes

A view is linked to a parent at most once, and the root never. So following parents from a view
either ends at a view without a parent, within as many steps as there are views, or runs in a circle
of views that are linked to each other but not to the root. The number of views bounds the walks.
-/

namespace ScreenDoc

/-- A view with its links. -/
structure Arena.Entry where
  view : View
  parent : Option ViewId
  /-- The children, in the order in which they were attached. -/
  children : List ViewId

/-- Views by their numbers. -/
structure Arena where
  entries : Array Arena.Entry

namespace Arena

/-- An arena that holds only its root. -/
def ofRoot (view : View) : Arena := ⟨#[⟨view, none, []⟩]⟩

/-- The number of the root. -/
def root : ViewId := 0

/-- The number of views. -/
def size (arena : Arena) : Nat :=
  arena.entries.size

/-- Whether there is a view of this number. -/
def contains (arena : Arena) (id : ViewId) : Bool :=
  id < arena.size

/-- The view of this number. -/
def get? (arena : Arena) (id : ViewId) : Option View :=
  arena.entries[id]?.map (·.view)

/-- The parent of a view. -/
def parent? (arena : Arena) (id : ViewId) : Option ViewId :=
  arena.entries[id]?.bind (·.parent)

/-- The children of a view; none if there is no such view. -/
def children (arena : Arena) (id : ViewId) : List ViewId :=
  match arena.entries[id]? with
  | some entry => entry.children
  | none => []

/-- Adds a view without links, and gives its number. -/
def insert (arena : Arena) (view : View) : Arena × ViewId :=
  (⟨arena.entries.push ⟨view, none, []⟩⟩, arena.size)

/-- Whether a view can become a child of another one: both exist and differ, and the child has no
parent and is not the root. -/
def canAttach (arena : Arena) (parent child : ViewId) : Bool :=
  child ≠ parent && arena.contains child && (arena.parent? child).isNone && child ≠ root &&
    arena.contains parent

/-- Links a view as the last child of a parent, and tells whether that was possible. -/
def attach (arena : Arena) (parent child : ViewId) : Arena × Bool :=
  if arena.canAttach parent child then
    let linked := arena.entries.modify parent fun entry =>
      { entry with children := entry.children ++ [child] }
    (⟨linked.modify child fun entry => { entry with parent := some parent }⟩, true)
  else (arena, false)

/-- Adds a view as the last child of a parent, and gives its number. -/
def insertUnder (arena : Arena) (parent : ViewId) (view : View) : Arena × ViewId :=
  let (arena, id) := arena.insert view
  ((arena.attach parent id).1, id)

/-- The ancestors of a view, the nearest first, up to a number of them. -/
def ancestorsWithin (arena : Arena) : Nat → ViewId → List ViewId
  | 0, _ => []
  | steps + 1, id =>
    match arena.parent? id with
    | some parent => parent :: ancestorsWithin arena steps parent
    | none => []

/-- The ancestors of a view, the nearest first. -/
def ancestors (arena : Arena) (id : ViewId) : List ViewId :=
  arena.ancestorsWithin arena.size id

/-- A view and the views below it up to a depth, each view before its children. -/
def walkWithin (arena : Arena) : Nat → ViewId → List ViewId
  | 0, _ => []
  | depth + 1, id =>
    if arena.contains id then id :: (arena.children id).flatMap (walkWithin arena depth) else []

/-- A view and all views below it, each view before its children. -/
def walk (arena : Arena) (id : ViewId) : List ViewId :=
  arena.walkWithin arena.size id

/-- The first view, in the order of the walk from the root, with this author identifier. -/
def find? (arena : Arena) (id : String) : Option ViewId :=
  (arena.walk root).find? fun n => ((arena.get? n).bind (·.id)) = some id

/-- Refreshes a view for the present state, and tells whether any of its values changed. -/
def refresh (arena : Arena) (store : Store) (id : ViewId) : Arena × Bool :=
  match arena.get? id with
  | some view =>
    let (kind, changed) := view.kind.refresh store
    (⟨arena.entries.modify id fun entry => { entry with view := { view with kind } }⟩, changed)
  | none => (arena, false)

/-- The views that a write concerns, without those below another such view. -/
def outermost (arena : Arena) (index : DependencyIndex) (written : Path) : List ViewId :=
  let concerned := index.concerned written
  concerned.filter fun id => !((arena.ancestors id).any concerned.contains)

end Arena

end ScreenDoc
