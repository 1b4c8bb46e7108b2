import ScreenDoc.Proofs.Expansion.Accounts
import ScreenDoc.Proofs.Expansion.Ledger
import ScreenDoc.Proofs.Expansion.Origin
import ScreenDoc.Proofs.Expansion.Shape

/-!
# The iterations of a document

An iteration is seen in one view: its container, or the view that its empty view becomes. That view
is shaped by the array that the iteration runs over, if the text of the iteration is a path and the
path stands for a place in the state.

## Main definitions

- `Iteration` — an iteration with the scope around it
- `Iteration.place?` — the place that the text of an iteration stands for
- `Node.iterations`, `Section.iterations`, `Document.iterations` — the iterations seen in each view
- `ShapedBy` — dependencies of a view that is shaped by the arrays of some iterations

## Main results

- `Context.shaped_expand` — the views of nodes and sections
- `Rulebook.shapes_of_build` — the views of a document
-/

namespace ScreenDoc

/-! ### Iterations -/

/-- An iteration, with the scope around it. -/
structure Iteration where
  scope : Scope
  settings : ForEachSettings

/-- The place in the state that the text of an iteration stands for, if the text is a path. -/
def Iteration.place? (it : Iteration) : Option Path :=
  (Path.ofText? it.settings.items).bind it.scope.sourcePath

theorem Scope.snd_itemsAt (scope : Scope) (answers : Path → Option Value)
    (settings : ForEachSettings) :
    (scope.itemsAt answers settings.items).2 = Iteration.place? ⟨scope, settings⟩ := by
  rw [itemsAt, Iteration.place?]
  cases Path.ofText? settings.items <;> rfl

mutual

/-- The iterations that are seen in each view of a node, each view before those below it. Those that
give way to the node are seen in its first view. -/
def Node.iterations (answers : Path → Option Value) :
    Scope → List Iteration → Node → List (List Iteration)
  | scope, outer, .container _ children => outer :: Node.iterationsOfAll answers scope children
  | scope, outer, .sectionLayout _ _ sections =>
    outer :: Section.iterationsOfAll answers scope sections
  | scope, outer, .forEach settings template emptyView =>
    let (items, source) := scope.itemsAt answers settings.items
    match items, emptyView with
    | [], some view => Node.iterations answers scope (outer ++ [⟨scope, settings⟩]) view
    | items, _ =>
      (outer ++ [⟨scope, settings⟩]) :: items.zipIdx.flatMap fun item =>
        Node.iterations answers (scope.atItem settings source item) [] template
  | _, outer, .spacer _ => [outer]
  | _, outer, .component _ => [outer]

/-- The same for nodes side by side, to which nothing gives way. -/
def Node.iterationsOfAll (answers : Path → Option Value) :
    Scope → List Node → List (List Iteration)
  | _, [] => []
  | scope, node :: rest =>
    Node.iterations answers scope [] node ++ Node.iterationsOfAll answers scope rest

/-- The same for a node that may be missing. -/
def Node.iterationsIfAny (answers : Path → Option Value) :
    Scope → Option Node → List (List Iteration)
  | _, none => []
  | scope, some node => Node.iterations answers scope [] node

/-- The same for a section: the header, the items and the footer. -/
def Section.iterations (answers : Path → Option Value) : Scope → Section → List (List Iteration)
  | scope, .mk _ _ header footer _ children =>
    [] :: (Node.iterationsIfAny answers scope header ++
      Node.iterationsOfAll answers scope children ++ Node.iterationsIfAny answers scope footer)

/-- The same for sections side by side. -/
def Section.iterationsOfAll (answers : Path → Option Value) :
    Scope → List Section → List (List Iteration)
  | _, [] => []
  | scope, first :: rest =>
    Section.iterations answers scope first ++ Section.iterationsOfAll answers scope rest

end

/-- The iterations that are seen in each view of a document, in the order of the numbers. -/
def Document.iterations (document : Document) (state : Store) : List (List Iteration) :=
  [] :: Node.iterationsOfAll state.get? .empty document.root.children

section Lists

variable (answers : Path → Option Value) (scope : Scope)

theorem Node.iterationsOfAll_eq_flatMap (nodes : List Node) :
    Node.iterationsOfAll answers scope nodes =
      nodes.flatMap (Node.iterations answers scope []) := by
  induction nodes with
  | nil => rw [iterationsOfAll, List.flatMap_nil]
  | cons node rest ih => rw [iterationsOfAll, ih, List.flatMap_cons]

theorem Node.iterationsIfAny_eq_flatMap (node : Option Node) :
    Node.iterationsIfAny answers scope node =
      node.toList.flatMap (Node.iterations answers scope []) := by
  cases node with
  | none => rw [iterationsIfAny, Option.toList_none, List.flatMap_nil]
  | some node => rw [iterationsIfAny, Option.toList_some, List.flatMap_singleton]

theorem Section.iterationsOfAll_eq_flatMap (sections : List Section) :
    Section.iterationsOfAll answers scope sections =
      sections.flatMap (Section.iterations answers scope) := by
  induction sections with
  | nil => rw [iterationsOfAll, List.flatMap_nil]
  | cons first rest ih => rw [iterationsOfAll, ih, List.flatMap_cons]

/-- An iteration without an empty view is seen in a view of its own. -/
theorem Node.iterations_forEach_none (outer : List Iteration) (settings : ForEachSettings)
    (template : Node) :
    (Node.forEach settings template none).iterations answers scope outer =
      (outer ++ [⟨scope, settings⟩]) ::
        (scope.itemsAt answers settings.items).1.zipIdx.flatMap fun item =>
          template.iterations answers
            (scope.atItem settings (scope.itemsAt answers settings.items).2 item) [] := by
  rw [iterations]
  rcases scope.itemsAt answers settings.items with ⟨_ | ⟨item, rest⟩, source⟩ <;> rfl

end Lists

theorem Rendered.ledgerOfAll_eq_flatMap (rs : List Rendered) :
    Rendered.ledgerOfAll rs = rs.flatMap Rendered.ledger := by
  induction rs with
  | nil => rw [ledgerOfAll, List.flatMap_nil]
  | cons first rest ih => rw [ledgerOfAll, ih, List.flatMap_cons]

/-! ### Dependencies on arrays -/

/-- Whether the dependencies of a view say that it is shaped by the arrays of some iterations and by
no others. The iterations stand in scopes that are placed in the state. -/
structure ShapedBy (state : Store) (its : List Iteration) (dependencies : List Dependency) :
    Prop where
  shapes : Dependency.shapes dependencies = its.filterMap Iteration.place?
  placed : ∀ it ∈ its, it.scope.Placed state

namespace ShapedBy

variable {state : Store} {its : List Iteration} {dependencies noted : List Dependency}

theorem nil : ShapedBy state [] [] :=
  ⟨rfl, fun _ hmem => absurd hmem List.not_mem_nil⟩

/-- Dependencies on values do not shape a view. -/
theorem append_values (h : ShapedBy state its dependencies)
    (hnoted : Dependency.shapes noted = []) : ShapedBy state its (dependencies ++ noted) :=
  ⟨by rw [Dependency.shapes_append, hnoted, List.append_nil, h.shapes], h.placed⟩

/-- One more iteration. -/
theorem append_iteration (h : ShapedBy state its dependencies) {it : Iteration}
    (hscope : it.scope.Placed state) (hnoted : Dependency.shapes noted = it.place?.toList) :
    ShapedBy state (its ++ [it]) (dependencies ++ noted) where
  shapes := by
    rw [Dependency.shapes_append, hnoted, List.filterMap_append, h.shapes]
    cases hplace : it.place? <;> simp [hplace]
  placed := List.forall_mem_append.2 ⟨h.placed, List.forall_mem_singleton.2 hscope⟩

/-- The place of an iteration can be written. -/
theorem written (h : ShapedBy state its dependencies) {it : Iteration} (hit : it ∈ its)
    {array : Path} (hplace : it.place? = some array) : array.Written := by
  obtain ⟨path, hpath, hsource⟩ := Option.bind_eq_some_iff.1 hplace
  exact ((h.placed it hit).sourcePath (Path.written_of_ofChars? hpath).1 hsource).1

end ShapedBy

/-! ### Nodes and sections -/

open Expanding (Ensures)

namespace Context

variable {leaves : LeafRules} {state : Store} {levels : Nat} {ctx : Context}
  {pending : List Dependency} {outer : List Iteration} {slot : Slot}

/-- Whether the views of an expansion are shaped by the arrays of the iterations that are seen in
them. -/
abbrev Shaped (state : Store) (its : List (List Iteration)) (r : Rendered) : Prop :=
  List.Forall₂ (ShapedBy state) its r.ledger

/-- The same for expansions side by side. -/
abbrev AllShaped (state : Store) (its : List (List Iteration)) (rs : List Rendered) : Prop :=
  List.Forall₂ (ShapedBy state) its (rs.flatMap Rendered.ledger)

/-- Whether this is so for nodes that are expanded down to a number of levels. -/
def NodesShaped (leaves : LeafRules) (state : Store) (levels : Nat) : Prop :=
  ∀ ctx pending outer slot node, ctx.tracks = true → ctx.scope.Placed state →
    ShapedBy state outer pending →
      Ensures state.get? (fun r _ => Shaped state (node.iterations state.get? ctx.scope outer) r)
        (Node.expand leaves levels ctx pending slot node)

/-- The same for sections. -/
def SectionsShaped (leaves : LeafRules) (state : Store) (levels : Nat) : Prop :=
  ∀ ctx s, ctx.tracks = true → ctx.scope.Placed state →
    Ensures state.get? (fun r _ => Shaped state (s.iterations state.get? ctx.scope) r)
      (Section.expand leaves levels ctx s)

/-- A leaf depends on values alone. -/
theorem values_leafKind (ctx : Context) (leaves : LeafRules) (answers : Path → Option Value)
    (leaf : Leaf) :
    Ensures answers (fun p _ => Dependency.shapes p.2 = []) (ctx.leafKind leaves leaf) := by
  have hvalues : (leaves.kindOf ctx leaf).shapes answers = [] :=
    leaves.shapes_kindOf ctx leaf answers
  rw [leafKind]
  refine Ensures.ofNoting_bind ?_
  simp only
  split
  · exact .done hvalues
  · split
    · exact .fail
    · exact (Ensures.diagnose (P := fun _ _ => True) trivial).bind_pure fun _ _ _ => hvalues

/-- A view, with the views below it. -/
theorem shaped_view {view : View} {dependencies : List Dependency} {its : List (List Iteration)}
    {x : Expanding (List Rendered)} (hview : ShapedBy state outer dependencies)
    (h : Ensures state.get? (fun rs _ => AllShaped state its rs) x) :
    Ensures state.get? (fun r _ => Shaped state (outer :: its) r)
      (x >>= fun children => pure (.mk view dependencies children)) := by
  refine h.bind_pure fun rs _ hrs => ?_
  rw [Shaped, Rendered.ledger, Rendered.ledgerOfAll_eq_flatMap]
  exact .cons hview hrs

theorem shaped_traverse {α : Type} {f : α → Expanding Rendered} {its : α → List (List Iteration)}
    {parts : List α}
    (h : ∀ part ∈ parts, Ensures state.get? (fun r _ => Shaped state (its part) r) (f part)) :
    Ensures state.get? (fun rs _ => AllShaped state (parts.flatMap its) rs)
      (Expanding.traverse f parts) := by
  refine Ensures.traverse_of_cons (Q := fun parts rs _ => AllShaped state (parts.flatMap its) rs)
    .nil ?_ h
  intro part rest r rs _ _ hr hrs
  rw [AllShaped, List.flatMap_cons, List.flatMap_cons]
  exact List.rel_append hr hrs

theorem shaped_nodes (ih : NodesShaped leaves state levels) (htracks : ctx.tracks = true)
    (hscope : ctx.scope.Placed state) (slot : Slot) (nodes : List Node) :
    Ensures state.get?
      (fun rs _ => AllShaped state (nodes.flatMap (Node.iterations state.get? ctx.scope [])) rs)
      (Expanding.traverse (Node.expand leaves levels ctx [] slot) nodes) :=
  shaped_traverse fun node _ => ih ctx [] [] slot node htracks hscope .nil

/-- The views of an iteration that does not give way to its empty view. -/
theorem shaped_iteration (ih : NodesShaped leaves state levels) (htracks : ctx.tracks = true)
    (hscope : ctx.scope.Placed state) (houter : ShapedBy state outer pending) (slot : Slot)
    (settings : ForEachSettings) (template : Node) :
    let (items, source) := ctx.scope.itemsAt state.get? settings.items
    Ensures state.get?
      (fun r _ => Shaped state (outer :: items.zipIdx.flatMap fun item =>
        template.iterations state.get? (ctx.scope.atItem settings source item) []) r)
      (Expanding.ofNoting (ctx.iterationKind settings) >>= fun p =>
        Expanding.traverse (fun (item, i) =>
          Node.expand leaves levels (ctx.push (itemFrame settings source item i)) [] .item
            template) items.zipIdx >>=
          fun children => pure (.mk ⟨p.1, settings.id, slot⟩ (pending ++ p.2) children)) := by
  refine Ensures.ofNoting_bind ?_
  have hvalues := ctx.shapes_iterationKind state.get? settings
  refine shaped_view (houter.append_values hvalues) (shaped_traverse fun item hitem => ?_)
  exact ih (ctx.atItem settings _ item) [] [] .item template htracks
    (hscope.atItem settings hitem) .nil

/-- An iteration is seen in a view of its own, unless the empty view takes its place. -/
theorem shaped_forEach (ih : NodesShaped leaves state levels) (htracks : ctx.tracks = true)
    (hscope : ctx.scope.Placed state) (houter : ShapedBy state outer pending)
    (settings : ForEachSettings) (template : Node) (emptyView : Option Node) :
    Ensures state.get?
      (fun r _ => Shaped state
        ((Node.forEach settings template emptyView).iterations state.get? ctx.scope outer) r)
      (Node.expand leaves (levels + 1) ctx pending slot
        (.forEach settings template emptyView)) := by
  rw [Node.expand, Node.iterations]
  refine Ensures.ofNoting_bind ?_
  have hnoted := ctx.shapes_itemsAt state.get? htracks settings.items
  rw [Scope.snd_itemsAt] at hnoted
  -- What the iteration notes comes behind what is pending.
  have hall : ShapedBy state (outer ++ [⟨ctx.scope, settings⟩]) _ :=
    houter.append_iteration hscope hnoted
  have hiteration := shaped_iteration ih htracks hscope hall slot settings template
  rw [ctx.result_itemsAt state.get? settings.items]
  generalize ctx.scope.itemsAt state.get? settings.items = found at hiteration ⊢
  obtain ⟨items, source⟩ := found
  cases items with
  | nil =>
    cases emptyView with
    | none => exact hiteration
    | some view => exact ih ctx _ _ slot view htracks hscope hall
  | cons item rest => exact hiteration

theorem shaped_section (ih : NodesShaped leaves state levels) (htracks : ctx.tracks = true)
    (hscope : ctx.scope.Placed state) (s : Section) :
    Ensures state.get? (fun r _ => Shaped state (s.iterations state.get? ctx.scope) r)
      (Section.expand leaves (levels + 1) ctx s) := by
  obtain ⟨id, settings, header, footer, stickyHeader, children⟩ := s
  rw [Section.expand, Section.iterations, Node.iterationsIfAny_eq_flatMap,
    Node.iterationsOfAll_eq_flatMap, Node.iterationsIfAny_eq_flatMap]
  refine (shaped_nodes ih htracks hscope .header header.toList).bind fun hs _ hheader => ?_
  refine (shaped_nodes ih htracks hscope .item children).bind fun is _ hitems => ?_
  refine (shaped_nodes ih htracks hscope .footer footer.toList).bind_pure fun fs _ hfooter => ?_
  rw [Shaped, Rendered.ledger, Rendered.ledgerOfAll_eq_flatMap, List.flatMap_append,
    List.flatMap_append]
  exact .cons .nil (List.rel_append (List.rel_append hheader hitems) hfooter)

/-- The views of nodes and sections are shaped by the arrays of the iterations that are seen in
them, however deep these are expanded. -/
theorem shaped_expand (leaves : LeafRules) (state : Store) (levels : Nat) :
    NodesShaped leaves state levels ∧ SectionsShaped leaves state levels := by
  -- As sections and nodes contain each other, both are carried through the levels.
  induction levels with
  | zero =>
    refine ⟨fun ctx pending outer slot node _ _ _ => ?_, fun ctx s _ _ => ?_⟩
    · rw [Node.expand]
      exact .fail
    · rw [Section.expand]
      exact .fail
  | succ levels ih =>
    obtain ⟨ihNode, ihSection⟩ := ih
    refine ⟨fun ctx pending outer slot node htracks hscope houter => ?_,
      fun ctx s htracks hscope => shaped_section ihNode htracks hscope s⟩
    cases node with
    | container settings children =>
      rw [Node.expand, Node.iterations, Node.iterationsOfAll_eq_flatMap]
      refine Ensures.ofNoting_bind ?_
      have hvalues := ctx.shapes_containerKind state.get? settings
      exact shaped_view (houter.append_values hvalues)
        (shaped_nodes ihNode htracks hscope .item children)
    | sectionLayout id spacing sections =>
      rw [Node.expand, Node.iterations, Section.iterationsOfAll_eq_flatMap]
      exact shaped_view houter (shaped_traverse fun s _ => ihSection ctx s htracks hscope)
    | forEach settings template emptyView =>
      exact shaped_forEach ihNode htracks hscope houter settings template emptyView
    | spacer space =>
      rw [Node.expand, Node.iterations]
      exact .done (.cons houter .nil)
    | component leaf =>
      rw [Node.expand, Node.iterations]
      exact (ctx.values_leafKind leaves state.get? leaf).bind_pure fun p _ hvalues =>
        .cons (houter.append_values hvalues) .nil

end Context

/-! ### Documents -/

namespace Rulebook

variable {rulebook : Rulebook} {document : Document} {state : Store} {tree : ViewTree}
  {index : DependencyIndex}

/-- The views of a document are shaped by the arrays of the iterations that are seen in them. -/
theorem shaped_of_runs {expansion : Diagnosed Expansion} {paths : List Path}
    (hruns : (document.expand rulebook.leaves (rulebook.context document)).Runs state.get? expansion
      paths) :
    Context.Shaped state (document.iterations state) expansion.result.root := by
  rw [Document.expand] at hruns
  obtain ⟨_, _, _, _, hscreen, hothers, rfl, -⟩ := Expanding.runs_bind.1 hruns
  obtain ⟨rfl, -⟩ := Expanding.runs_ofNoting.1 hscreen
  obtain ⟨children, _, _, _, hchildren, hdone, rfl, -⟩ := Expanding.runs_bind.1 hothers
  obtain ⟨rfl, -⟩ := Expanding.runs_done.1 hdone
  have hnodes := (Context.shaped_expand rulebook.leaves state rulebook.limits.layout).1
  have htracks : (rulebook.context document).tracks = true := rfl
  have hbelow := Context.shaped_nodes hnodes htracks (Scope.placed_empty state) .item
    document.root.children children hchildren.1
  have hscreen := (rulebook.context document).shapes_screen state.get? document.root
  rw [Context.Shaped, Document.iterations, Node.iterationsOfAll_eq_flatMap, Rendered.ledger,
    Rendered.ledgerOfAll_eq_flatMap]
  exact .cons ⟨hscreen, fun _ hmem => absurd hmem List.not_mem_nil⟩ hbelow

/-- Each view depends on the arrays of the iterations that are seen in it, and on no others. -/
theorem shapes_of_build (hbuild : rulebook.build document state true = .ok (tree, index)) :
    (document.iterations state).length = tree.size ∧
      ∀ id its, (document.iterations state)[id]? = some its →
        (∀ it ∈ its, it.scope.Placed state) ∧
          ∀ array, ⟨array, .shape⟩ ∈ index.dependenciesOf id ↔
            ∃ it ∈ its, it.place? = some array := by
  obtain ⟨expansion, hruns, htree⟩ := build_eq_ok_iff.1 hbuild
  have hshaped := shaped_of_runs hruns
  have hkeeps := Linked.keeps_ofRendered expansion.result.root
  obtain rfl : (Linked.ofRendered expansion.result.root).index = index := congrArg Prod.snd htree
  have hsize : tree.size = (Linked.ofRendered expansion.result.root).arena.size :=
    (congrArg (fun built => built.1.size) htree).symm
  refine ⟨?_, fun id its hits => ?_⟩
  · rw [hsize, hkeeps.size, hshaped.length_eq]
  · obtain ⟨hlt, hget⟩ := List.getElem?_eq_some_iff.1 hits
    have hlt' : id < expansion.result.root.ledger.length := hshaped.length_eq ▸ hlt
    have hview := hshaped.get hlt hlt'
    rw [List.get_eq_getElem, List.get_eq_getElem, hget] at hview
    refine ⟨hview.placed, fun array => ?_⟩
    rw [hkeeps.dependenciesOf, List.getElem?_eq_getElem hlt', Option.getD_some,
      Dependency.recorded, List.mem_eraseDups, List.mem_filter, ← Dependency.mem_shapes,
      hview.shapes, List.mem_filterMap]
    refine ⟨And.left, fun hmem => ⟨hmem, ?_⟩⟩
    -- A path that can be written leads into the state, so it is kept.
    obtain ⟨it, hit, hplace⟩ := hmem
    exact (hview.written hit hplace).rooted

end Rulebook

end ScreenDoc
