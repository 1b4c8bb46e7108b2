import ScreenDoc.Expansion.Leaf

/-!
# Expansion of the layout

The layout of a document, with iterations unrolled and sections laid out, as a tree of views
that are not numbered yet.

## Main definitions

- `Rendered` — a view with its dependencies and the views below it
- `Expanding` — a computation that reads the state, notes problems and may fail
- `Node.expand` — the views of a node of the layout

## Design notes

The dependencies that are noted before a view exists belong to it. An iteration without items that
has an empty view makes no view of its own, so its dependency on the array passes to the empty view:
these are the pending dependencies of `Node.expand`.

The expansion recurses on the number of levels that the layout may still be nested, so that the
limit on nesting is also what makes it end.
-/

namespace ScreenDoc

/-- A view with what it depends on and the views below it. -/
inductive Rendered where
  | mk (view : View) (dependencies : List Dependency) (children : List Rendered)

namespace Rendered

/-- The view itself. -/
def view : Rendered → View
  | .mk view _ _ => view

/-- What the view depends on. -/
def dependencies : Rendered → List Dependency
  | .mk _ dependencies _ => dependencies

/-- The views below the view. -/
def children : Rendered → List Rendered
  | .mk _ _ children => children

end Rendered

/-- A result with the problems noted on the way to it. -/
structure Diagnosed (α : Type) where
  result : α
  diagnostics : List Problem

/-- A computation that reads the state, notes problems and may fail. -/
def Expanding (α : Type) := Reading (Except Problem (Diagnosed α))

namespace Expanding

variable {α β : Type}

/-- A result without problems. -/
def done (a : α) : Expanding α := Reading.done (.ok ⟨a, []⟩)

/-- A failure. -/
def fail (error : Problem) : Expanding α := Reading.done (.error error)

/-- One computation after another. A failure of the first one is the failure of both. -/
def bind (x : Expanding α) (f : α → Expanding β) : Expanding β :=
  Reading.bind x fun
    | .error error => .done (.error error)
    | .ok a => Reading.bind (f a.result) fun
      | .error error => .done (.error error)
      | .ok b => .done (.ok ⟨b.result, a.diagnostics ++ b.diagnostics⟩)

instance : Monad Expanding where
  pure := done
  bind := bind

/-- Notes a problem. -/
def diagnose (error : Problem) : Expanding Unit := Reading.done (.ok ⟨(), [error]⟩)

/-- A computation that cannot fail, with the dependencies that it noted. -/
def ofNoting (x : Noting α) : Expanding (α × List Dependency) :=
  Reading.bind x fun noted =>
    .done (.ok ⟨(noted.result, noted.dependencies), noted.diagnostics⟩)

/-- A computation for each element of a list, in order. -/
def traverse (f : α → Expanding β) : List α → Expanding (List β)
  | [] => done []
  | a :: rest => bind (f a) fun b => bind (traverse f rest) fun others => done (b :: others)

end Expanding

namespace Context

/-- The kind of view that a container becomes. -/
def containerKind (ctx : Context) (settings : ContainerSettings) : Noting ViewKind := do
  let style ← ctx.finalStyle settings.styleId settings.style
    ⟨settings.padding, none, none, settings.spacing⟩
  return .container settings.kind (settings.alignment.getD .center) style

/-- The kind of view that an iteration becomes. -/
def iterationKind (ctx : Context) (settings : ForEachSettings) : Noting ViewKind := do
  let style ← ctx.finalStyle none none ⟨settings.padding, none, none, settings.spacing⟩
  return .container settings.layout (settings.alignment.getD .center) style

/-- The names that an iteration binds for an item at a position. The item lives where the array
does, and the position lives nowhere. -/
def itemFrame (settings : ForEachSettings) (source : Option Path) (item : Value) (i : Nat) :
    Scope.Frame :=
  Fields.ofList [(settings.itemVariable, ⟨item, source.map fun array => array.index i⟩),
    (settings.indexVariable, ⟨Value.ofNat i, none⟩)]

/-- The kind of view that a leaf becomes. One that is invalid becomes an unknown view. -/
def leafKind (ctx : Context) (leaves : LeafRules) (leaf : Leaf) :
    Expanding (ViewKind × List Dependency) := do
  let (outcome, dependencies) ← Expanding.ofNoting (leaves.kindOf ctx leaf)
  match outcome with
  | .ok kind => return (kind, dependencies)
  | .error error =>
    if error.isFatal then Expanding.fail error
    else do
      Expanding.diagnose error
      return (.unknown leaf.type, dependencies)

end Context

/-- The kind of view that a section becomes. -/
def SectionSettings.viewKind (settings : SectionSettings) (stickyHeader : Bool) : ViewKind :=
  .section (.ofSettings settings) stickyHeader

mutual

/-- The views of a node of the layout, given the number of levels that it may still be nested, the
dependencies that are pending and its slot in the parent. -/
def Node.expand (leaves : LeafRules) :
    Nat → Context → List Dependency → Slot → Node → Expanding Rendered
  | 0, ctx, _, _, _ => Expanding.fail (.depthExceeded ctx.limits.layout)
  | levels + 1, ctx, pending, slot, .container settings children => do
    let (kind, dependencies) ← Expanding.ofNoting (ctx.containerKind settings)
    let children ← Expanding.traverse (Node.expand leaves levels ctx [] .item) children
    return .mk ⟨kind, settings.id, slot⟩ (pending ++ dependencies) children
  | levels + 1, ctx, pending, slot, .sectionLayout id spacing sections => do
    let children ← Expanding.traverse (Section.expand leaves levels ctx) sections
    return .mk ⟨.sectionLayout (spacing.getD 0.0), id, slot⟩ pending children
  | levels + 1, ctx, pending, slot, .forEach settings template emptyView => do
    let ((items, source), shape) ← Expanding.ofNoting (ctx.itemsAt settings.items)
    match items, emptyView with
    | [], some view => Node.expand leaves levels ctx (pending ++ shape) slot view
    | items, _ => do
      let (kind, dependencies) ← Expanding.ofNoting (ctx.iterationKind settings)
      let children ← Expanding.traverse (fun (item, i) =>
        Node.expand leaves levels (ctx.push (Context.itemFrame settings source item i)) []
          .item template) items.zipIdx
      return .mk ⟨kind, settings.id, slot⟩ (pending ++ shape ++ dependencies) children
  | _ + 1, _, pending, slot, .spacer space =>
    return .mk ⟨.spacer space, none, slot⟩ pending []
  | _ + 1, ctx, pending, slot, .component leaf => do
    let (kind, dependencies) ← ctx.leafKind leaves leaf
    return .mk ⟨kind, leaf.id, slot⟩ (pending ++ dependencies) []

/-- The views of a section, which takes a level of its own. Its children are the header, the
items and the footer. -/
def Section.expand (leaves : LeafRules) :
    Nat → Context → Section → Expanding Rendered
  | 0, ctx, _ => Expanding.fail (.depthExceeded ctx.limits.layout)
  | levels + 1, ctx, .mk id settings header footer stickyHeader children => do
    let header ← Expanding.traverse (Node.expand leaves levels ctx [] .header) header.toList
    let items ← Expanding.traverse (Node.expand leaves levels ctx [] .item) children
    let footer ← Expanding.traverse (Node.expand leaves levels ctx [] .footer) footer.toList
    return .mk ⟨settings.viewKind stickyHeader, id, .item⟩ [] (header ++ items ++ footer)

end

end ScreenDoc
