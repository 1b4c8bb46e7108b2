import ScreenDoc.Proofs.Expansion.Ledger
import ScreenDoc.Proofs.Expansion.Levels

/-!
# Sketches of expansions

The views of a layout with a gap, before it is known which leaf fills the gap. Where the leaf is
expanded there is a spot. A spot makes one view, which the leaf decides on, and all other views, all
numbers and all links are fixed in advance.

## Main definitions

- `Stage` — what the leaf in the gap is expanded with
- `Spot` — an instance of the leaf, with what it shows, depends on and complains about
- `Sketch` — views that are known but for the spots
- `Sketch.fill` — the views with a leaf in the gap
- `Cell` — what a sketch fixes about the view of one number
- `Note` — a problem, or a spot that may have problems

## Main results

- `Cell.spot?_eq_none_iff` — a view comes from the leaf unless it is the same with all leaves
- `Sketch.entries_ofRendered` — a sketch is planted as its cells, whatever leaf is in the gap
- `Sketch.dependenciesOf_ofRendered` — and so are the dependencies
-/

namespace ScreenDoc

/-! ### Spots -/

/-- The problems of a computation that may fail. The failure comes last. -/
def Noted.complaints {α : Type} (noted : Noted (Except Problem α)) : List Problem :=
  noted.diagnostics ++
    match noted.result with
    | .ok _ => []
    | .error problem => [problem]

/-- What the leaf in a gap is expanded with: the rules for leaves, the answers of the state, and the
context outside of all iterations. -/
structure Stage where
  leaves : LeafRules
  answers : Path → Option Value
  ctx : Context

/-- An instance of the leaf in a gap: the iteration variables in the place of the gap, the
dependencies that pass to the view and its slot. -/
structure Spot where
  scope : Scope
  pending : List Dependency
  slot : Slot

namespace Spot

variable (stage : Stage) (leaf : Leaf) (spot : Spot)

/-- What the rules make of the leaf. -/
def noted : Noted (Except Problem ViewKind) :=
  (stage.leaves.kindOf (stage.ctx.withScope spot.scope) leaf).outcome stage.answers

/-- The view of the leaf. -/
def view : View :=
  ⟨(stage.ctx.withScope spot.scope).shownLeaf stage.leaves stage.answers leaf, leaf.id, spot.slot⟩

/-- What the view of the leaf depends on. -/
def dependencies : List Dependency :=
  spot.pending ++ (spot.noted stage leaf).dependencies

/-- The problems of the leaf. What makes it an unknown view comes last. -/
def problems : List Problem :=
  (spot.noted stage leaf).complaints

end Spot

/-- A problem, or a spot that may have problems. -/
inductive Note where
  | spot (spot : Spot)
  | kept (problem : Problem)

namespace Note

/-- The problems that are noted with a leaf in the gap. -/
def problems (stage : Stage) (leaf : Leaf) : Note → List Problem
  | .spot s => s.problems stage leaf
  | .kept problem => [problem]

/-- The spot of a note, if it is one. -/
def spot? : Note → Option Spot
  | .spot s => some s
  | .kept _ => none

theorem flatMap_problems_kept (stage : Stage) (leaf : Leaf) (problems : List Problem) :
    (problems.map kept).flatMap (Note.problems stage leaf) = problems := by
  rw [List.flatMap_map]
  exact List.flatMap_singleton' problems

theorem filterMap_spot?_kept (problems : List Problem) :
    (problems.map kept).filterMap spot? = [] := by
  rw [List.filterMap_map]
  exact List.filterMap_eq_nil_iff.2 fun _ _ => rfl

end Note

/-- A view that is known, or a spot. -/
inductive Mark where
  | spot (spot : Spot)
  | kept (view : View) (dependencies : List Dependency)

namespace Mark

/-- The view with a leaf in the gap. -/
def view (stage : Stage) (leaf : Leaf) : Mark → View
  | .spot s => s.view stage leaf
  | .kept view _ => view

/-- What the view depends on with a leaf in the gap. -/
def dependencies (stage : Stage) (leaf : Leaf) : Mark → List Dependency
  | .spot s => s.dependencies stage leaf
  | .kept _ dependencies => dependencies

/-- The spot of a mark, if it is one. -/
def spot? : Mark → Option Spot
  | .spot s => some s
  | .kept _ _ => none

end Mark

/-! ### Sketches -/

/-- Views that are known but for the spots. -/
inductive Sketch where
  | mk (mark : Mark) (parts : List Sketch)

/-- What a sketch fixes about the view of one number: who makes it, and its links. -/
structure Cell where
  mark : Mark
  parent : Option ViewId
  children : List ViewId

/-- The entry of a view with a leaf in the gap. -/
def Cell.entry (stage : Stage) (leaf : Leaf) (cell : Cell) : Arena.Entry :=
  ⟨cell.mark.view stage leaf, cell.parent, cell.children⟩

/-- A view comes from the leaf unless it is the same with all leaves: the view of a leaf has its
identifier. -/
theorem Cell.spot?_eq_none_iff (stage : Stage) (cell : Cell) :
    cell.mark.spot? = none ↔ ∀ leaf leaf', cell.entry stage leaf = cell.entry stage leaf' := by
  obtain ⟨mark, parent, children⟩ := cell
  cases mark with
  | kept view dependencies => exact ⟨fun _ _ _ => rfl, fun _ => rfl⟩
  | spot s =>
    refine ⟨fun h => absurd h (Option.some_ne_none s), fun h => ?_⟩
    have hid := congrArg (fun entry => entry.view.id)
      (h (.ofType "") { Leaf.ofType "" with id := some "" })
    exact absurd hid (Option.some_ne_none "").symm

namespace Sketch

mutual

/-- The views with a leaf in the gap. -/
def fill (stage : Stage) (leaf : Leaf) : Sketch → Rendered
  | .mk mark parts =>
    .mk (mark.view stage leaf) (mark.dependencies stage leaf) (fillAll stage leaf parts)

/-- The views of sketches side by side. -/
def fillAll (stage : Stage) (leaf : Leaf) : List Sketch → List Rendered
  | [] => []
  | first :: rest => fill stage leaf first :: fillAll stage leaf rest

end

mutual

/-- The marks in order, each before those below it. -/
def marks : Sketch → List Mark
  | .mk mark parts => mark :: marksOfAll parts

/-- The marks of sketches side by side, in order. -/
def marksOfAll : List Sketch → List Mark
  | [] => []
  | first :: rest => marks first ++ marksOfAll rest

end

/-- The spots of a sketch, in order. -/
def spots (sketch : Sketch) : List Spot :=
  sketch.marks.filterMap Mark.spot?

/-- The spots of sketches side by side, in order. -/
def spotsOfAll (sketches : List Sketch) : List Spot :=
  (marksOfAll sketches).filterMap Mark.spot?

theorem fillAll_append (stage : Stage) (leaf : Leaf) (sketches others : List Sketch) :
    fillAll stage leaf (sketches ++ others) =
      fillAll stage leaf sketches ++ fillAll stage leaf others := by
  induction sketches with
  | nil => rfl
  | cons first rest ih => rw [List.cons_append, fillAll, ih, fillAll, List.cons_append]

theorem spotsOfAll_cons (first : Sketch) (rest : List Sketch) :
    spotsOfAll (first :: rest) = first.spots ++ spotsOfAll rest := by
  rw [spotsOfAll, marksOfAll, List.filterMap_append, ← spots, ← spotsOfAll]

theorem spotsOfAll_append (sketches others : List Sketch) :
    spotsOfAll (sketches ++ others) = spotsOfAll sketches ++ spotsOfAll others := by
  induction sketches with
  | nil => rfl
  | cons first rest ih =>
    rw [List.cons_append, spotsOfAll_cons, ih, spotsOfAll_cons, List.append_assoc]

/-- The numbers of sketches side by side, given that of the first one. -/
def numbers : ViewId → List Sketch → List ViewId
  | _, [] => []
  | start, first :: rest => start :: numbers (start + first.marks.length) rest

mutual

/-- The cells in order, each before those below it, given the parent and the number of the first
one. -/
def cells (parent : Option ViewId) : ViewId → Sketch → List Cell
  | start, .mk mark parts =>
    ⟨mark, parent, numbers (start + 1) parts⟩ :: cellsOfAll (some start) (start + 1) parts

/-- The cells of sketches side by side, in order. -/
def cellsOfAll (parent : Option ViewId) : ViewId → List Sketch → List Cell
  | _, [] => []
  | start, first :: rest =>
    cells parent start first ++ cellsOfAll parent (start + first.marks.length) rest

end

mutual

theorem marks_cells (parent : Option ViewId) :
    (start : ViewId) → (sketch : Sketch) → (sketch.cells parent start).map Cell.mark = sketch.marks
  | start, .mk mark parts => by
    have hparts := marks_cellsOfAll (some start) (start + 1) parts
    rw [cells, marks, List.map_cons, hparts]

theorem marks_cellsOfAll (parent : Option ViewId) :
    (start : ViewId) → (sketches : List Sketch) →
      (cellsOfAll parent start sketches).map Cell.mark = marksOfAll sketches
  | _, [] => rfl
  | start, first :: rest => by
    have hfirst := marks_cells parent start first
    have hrest := marks_cellsOfAll parent (start + first.marks.length) rest
    rw [cellsOfAll, marksOfAll, List.map_append, hfirst, hrest]

end

/-! ### Filled sketches -/

section Filled

variable (stage : Stage) (leaf : Leaf)

mutual

/-- The number of views does not depend on the leaf. -/
theorem size_fill : (sketch : Sketch) →
    (sketch.fill stage leaf).outline.size = sketch.marks.length
  | .mk mark parts => by
    have hparts := sizeOfAll_fillAll parts
    rw [fill, Rendered.outline, Outline.size, marks, List.length_cons, hparts]

theorem sizeOfAll_fillAll : (sketches : List Sketch) →
    Outline.sizeOfAll (Rendered.outlines (fillAll stage leaf sketches)) =
      (marksOfAll sketches).length
  | [] => rfl
  | first :: rest => by
    have hfirst := size_fill first
    have hrest := sizeOfAll_fillAll rest
    rw [fillAll, Rendered.outlines, Outline.sizeOfAll, marksOfAll, List.length_append, hfirst,
      hrest]

end

theorem numbers_fillAll (start : ViewId) (sketches : List Sketch) :
    Outline.numbers start (Rendered.outlines (fillAll stage leaf sketches)) =
      numbers start sketches := by
  induction sketches generalizing start with
  | nil => rfl
  | cons first rest ih =>
    rw [fillAll, Rendered.outlines, Outline.numbers, numbers, size_fill, ih]

mutual

/-- The entries of a filled sketch are its filled cells. -/
theorem entries_fill (parent : Option ViewId) :
    (start : ViewId) → (sketch : Sketch) →
      (sketch.fill stage leaf).outline.entries parent start =
        (sketch.cells parent start).map (Cell.entry stage leaf)
  | start, .mk mark parts => by
    have hparts := entriesOfAll_fillAll (some start) (start + 1) parts
    rw [fill, Rendered.outline, Outline.entries, cells, List.map_cons, hparts, numbers_fillAll]
    rfl

theorem entriesOfAll_fillAll (parent : Option ViewId) :
    (start : ViewId) → (sketches : List Sketch) →
      Outline.entriesOfAll parent start (Rendered.outlines (fillAll stage leaf sketches)) =
        (cellsOfAll parent start sketches).map (Cell.entry stage leaf)
  | _, [] => rfl
  | start, first :: rest => by
    have hfirst := entries_fill parent start first
    have hrest := entriesOfAll_fillAll parent (start + first.marks.length) rest
    rw [fillAll, Rendered.outlines, Outline.entriesOfAll, cellsOfAll, List.map_append, hfirst,
      size_fill, hrest]

end

mutual

/-- The dependencies of a filled sketch are those of its filled marks. -/
theorem ledger_fill : (sketch : Sketch) →
    (sketch.fill stage leaf).ledger = sketch.marks.map (Mark.dependencies stage leaf)
  | .mk mark parts => by
    have hparts := ledgerOfAll_fillAll parts
    rw [fill, Rendered.ledger, marks, List.map_cons, hparts]

theorem ledgerOfAll_fillAll : (sketches : List Sketch) →
    Rendered.ledgerOfAll (fillAll stage leaf sketches) =
      (marksOfAll sketches).map (Mark.dependencies stage leaf)
  | [] => rfl
  | first :: rest => by
    have hfirst := ledger_fill first
    have hrest := ledgerOfAll_fillAll rest
    rw [fillAll, Rendered.ledgerOfAll, marksOfAll, List.map_append, hfirst, hrest]

end

/-- The entries of the views of a sketch, planted with a leaf in the gap. -/
theorem entries_ofRendered (sketch : Sketch) :
    (Linked.ofRendered (sketch.fill stage leaf)).arena.entries.toList =
      (sketch.cells none Arena.root).map (Cell.entry stage leaf) :=
  (Linked.entries_ofRendered _).trans (sketch.entries_fill stage leaf none Arena.root)

/-- The views are walked in the order of the cells. -/
theorem walk_ofRendered (sketch : Sketch) :
    (Linked.ofRendered (sketch.fill stage leaf)).arena.walk Arena.root =
      List.range (sketch.cells none Arena.root).length := by
  have hsize : (Linked.ofRendered (sketch.fill stage leaf)).arena.size =
      (sketch.cells none Arena.root).length := by
    rw [Arena.size, ← Array.length_toList, sketch.entries_ofRendered, List.length_map]
  rw [Arena.walk_eq_range (Linked.entries_ofRendered _), hsize]

/-- The index holds what the views of the cells depend on. -/
theorem dependenciesOf_ofRendered (sketch : Sketch) (id : ViewId) :
    (Linked.ofRendered (sketch.fill stage leaf)).index.dependenciesOf id =
      Dependency.recorded (((sketch.cells none Arena.root)[id]?.map fun cell =>
        cell.mark.dependencies stage leaf).getD []) := by
  rw [(Linked.keeps_ofRendered _).dependenciesOf, sketch.ledger_fill, List.getElem?_map,
    ← sketch.marks_cells none Arena.root, List.getElem?_map, Option.map_map]
  rfl

end Filled

/-! ### Sketches without spots -/

mutual

/-- The sketch of views that are known. -/
def ofRendered : Rendered → Sketch
  | .mk view dependencies children => .mk (.kept view dependencies) (ofAllRendered children)

/-- The sketches of views side by side that are known. -/
def ofAllRendered : List Rendered → List Sketch
  | [] => []
  | first :: rest => ofRendered first :: ofAllRendered rest

end

section Known

variable (stage : Stage) (leaf : Leaf)

mutual

theorem fill_ofRendered : (r : Rendered) → (ofRendered r).fill stage leaf = r
  | .mk view dependencies children => by
    have hchildren := fillAll_ofAllRendered children
    rw [ofRendered, fill, hchildren]
    rfl

theorem fillAll_ofAllRendered : (rs : List Rendered) → fillAll stage leaf (ofAllRendered rs) = rs
  | [] => rfl
  | first :: rest => by
    have hfirst := fill_ofRendered first
    have hrest := fillAll_ofAllRendered rest
    rw [ofAllRendered, fillAll, hfirst, hrest]

end

end Known

mutual

theorem spots_ofRendered : (r : Rendered) → (ofRendered r).spots = []
  | .mk view dependencies children => by
    rw [ofRendered, spots, marks]
    exact spotsOfAll_ofAllRendered children

theorem spotsOfAll_ofAllRendered : (rs : List Rendered) → spotsOfAll (ofAllRendered rs) = []
  | [] => rfl
  | first :: rest => by
    have hfirst := spots_ofRendered first
    have hrest := spotsOfAll_ofAllRendered rest
    rw [ofAllRendered, spotsOfAll_cons, hfirst, hrest, List.append_nil]

end

end Sketch

end ScreenDoc
