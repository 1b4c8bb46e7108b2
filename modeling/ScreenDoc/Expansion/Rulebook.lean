import ScreenDoc.Expansion.Layout
import ScreenDoc.View.Tree

/-!
# From documents to view trees

The tree of a document over a state, together with the dependencies of its views.

## Main definitions

- `Linked.plant` — an expanded part of the layout, numbered and linked
- `Document.expand` — the screen and the views of a document
- `Rulebook` — the rules and limits of expansion
- `Rulebook.build` — the tree of a document over a given state
- `Rulebook.render`, `Rulebook.renderTracked` — the tree of a document over its own state

## Design notes

The views are numbered in the order of the document, each view before its children.
-/

namespace ScreenDoc

/-- Numbered and linked views with their dependencies. -/
structure Linked where
  arena : Arena
  index : DependencyIndex

namespace Linked

/-- A root with its dependencies. -/
def ofRoot (view : View) (dependencies : List Dependency) : Linked :=
  ⟨.ofRoot view, DependencyIndex.empty.insertAll Arena.root dependencies⟩

/-- Adds a view with its dependencies as the last child of a parent, and gives its number. -/
def insertUnder (linked : Linked) (parent : ViewId) (view : View)
    (dependencies : List Dependency) : Linked × ViewId :=
  let (arena, id) := linked.arena.insertUnder parent view
  (⟨arena, linked.index.insertAll id dependencies⟩, id)

mutual

/-- Adds an expanded part of the layout below a parent. -/
def plant (linked : Linked) (parent : ViewId) : Rendered → Linked
  | .mk view dependencies children =>
    let (linked, id) := linked.insertUnder parent view dependencies
    linked.plantAll id children

/-- Adds expanded parts of the layout below a parent, in order. -/
def plantAll (linked : Linked) (parent : ViewId) : List Rendered → Linked
  | [] => linked
  | first :: rest => (linked.plant parent first).plantAll parent rest

end

end Linked

namespace Context

/-- The properties of the screen. The insets of the root act as its padding. -/
def screen (ctx : Context) (root : Root) : Noting Screen := do
  let style ← ctx.effectiveStyle root.styleId root.style
  let onAppear ← ctx.boundAction? root.actions.onAppear
  let onDisappear ← ctx.boundAction? root.actions.onDisappear
  return {
    backgroundColor := root.backgroundColor.or style.backgroundColor
    edgeInsets := Insets.ofPadding root.edgeInsets style.padding
    colorScheme := root.colorScheme.getD .system
    style := .ofLayer style ⟨root.edgeInsets, none, none, none⟩
    onAppear
    onDisappear }

end Context

/-- An expanded document, before its views are numbered. -/
structure Expansion where
  screen : Screen
  /-- The container of the whole layout. -/
  root : Rendered

/-- The screen and the views of a document. -/
def Document.expand (document : Document) (leaves : LeafRules) (ctx : Context) :
    Expanding Expansion := do
  let (screen, dependencies) ← Expanding.ofNoting (ctx.screen document.root)
  let children ← Expanding.traverse
    (Node.expand leaves ctx.limits.layout ctx [] .item) document.root.children
  return ⟨screen, .mk (.plainContainer screen.style) dependencies children⟩

/-- The rules and limits of expansion. -/
structure Rulebook where
  leaves : LeafRules
  actions : ActionRules
  limits : Limits
  /-- Whether dependencies are noted even where nobody asks for them. -/
  tracks : Bool

namespace Rulebook

/-- The built-in rules and the usual limits. -/
def standard : Rulebook := ⟨.builtin, .builtin, .standard, false⟩

instance : Inhabited Rulebook := ⟨standard⟩

/-- The tree of an expansion. Its state is still empty. -/
def treeOf (expansion : Expansion) (actions : List (String × ReadyAction))
    (diagnostics : List Problem) : ViewTree × DependencyIndex :=
  let linked := (Linked.ofRoot expansion.root.view expansion.root.dependencies).plantAll
    Arena.root expansion.root.children
  (⟨linked.arena, expansion.screen, actions, .empty, diagnostics⟩, linked.index)

/-- The tree of a document, reading the state, and the dependencies of its views, if they are
tracked. -/
def reading (rulebook : Rulebook) (document : Document) (track : Bool) :
    Reading (Except Problem (ViewTree × DependencyIndex)) :=
  let (actions, failures) := rulebook.actions.readyAll document.actions rulebook.limits.actions
  let failed := failures.map fun (id, error) => Problem.action id error
  let ctx := Context.ofDocument document rulebook.limits track rulebook.actions
  Reading.bind (document.expand rulebook.leaves ctx) fun
    | .error error => .done (.error error)
    | .ok ⟨expansion, diagnostics⟩ =>
      .done (.ok (treeOf expansion actions (failed ++ diagnostics)))

/-- The tree of a document over a state, and the dependencies of its views, if they are tracked. The
state of the tree is the given one. -/
def build (rulebook : Rulebook) (document : Document) (state : Store) (track : Bool) :
    Except Problem (ViewTree × DependencyIndex) := do
  let (tree, index) ← (rulebook.reading document track).value state.get?
  return ({ tree with state }, index)

/-- The tree of a document over the state that the document starts with. -/
def render (rulebook : Rulebook) (document : Document) : Except Problem ViewTree := do
  let (tree, _) ← rulebook.build document (.ofValues document.state) rulebook.tracks
  return tree

/-- The tree of a document over the state that the document starts with, and the dependencies of its
views. -/
def renderTracked (rulebook : Rulebook) (document : Document) :
    Except Problem (ViewTree × DependencyIndex) :=
  rulebook.build document (.ofValues document.state) true

/-- The tree of a document, or the empty tree if the document cannot be expanded. -/
def renderOrEmpty (rulebook : Rulebook) (document : Document) : ViewTree :=
  match rulebook.render document with
  | .ok tree => tree
  | .error _ => .empty

end Rulebook

end ScreenDoc
