import ScreenDoc.Proofs.Action.Walk
import ScreenDoc.Proofs.Expansion.Faithful
import ScreenDoc.Proofs.Expansion.Handler

/-!
# The handlers of a document

Every view of a tree comes from a leaf of the document, or from no leaf. The handlers that the views
have a use for are all bound, and what is wrong with them is noted once for each view.

## Main definitions

- `Node.sources`, `Section.sources`, `Document.sources` — the leaf that each view comes from
- `handlersOf` — the handlers that views have a use for
- `Expanding.Ensures` — what holds of a result and the problems noted with it, if there is one
- `ActionRules.Accounts` — views hold what their handlers are bound to, and all faults are noted
- `ViewTree.boundActions`, `Document.handlers` — the actions that a tree holds, and the handlers that
  they come from
- `ViewTree.actionNames` — the names of the actions that a tree holds by name
- `Rulebook.Settles` — all handlers of a document are settled in a tree

## Main results

- `Context.accounts_expand` — the views of nodes and sections
- `Rulebook.settles_of_build` — the handlers of a document are settled in its tree
- `Rulebook.Settles.contains`, `Rulebook.Settles.noop`, `Rulebook.Settles.count_diagnostics` — what
  this says of a name, of a faulty handler and of a problem
-/

namespace ScreenDoc

/-! ### Where views come from -/

mutual

/-- The leaf that each view of a node comes from, each view before those below it. -/
def Node.sources (answers : Path → Option Value) : Scope → Node → List (Option Leaf)
  | scope, .container _ children => none :: Node.sourcesOfAll answers scope children
  | scope, .sectionLayout _ _ sections => none :: Section.sourcesOfAll answers scope sections
  | scope, .forEach settings template emptyView =>
    let (items, source) := scope.itemsAt answers settings.items
    match items, emptyView with
    | [], some view => Node.sources answers scope view
    | items, _ =>
      none :: items.zipIdx.flatMap fun item =>
        Node.sources answers (scope.atItem settings source item) template
  | _, .spacer _ => [none]
  | _, .component leaf => [some leaf]

/-- The same for nodes side by side. -/
def Node.sourcesOfAll (answers : Path → Option Value) : Scope → List Node → List (Option Leaf)
  | _, [] => []
  | scope, node :: rest => Node.sources answers scope node ++ Node.sourcesOfAll answers scope rest

/-- The same for a node that may be missing. -/
def Node.sourcesIfAny (answers : Path → Option Value) : Scope → Option Node → List (Option Leaf)
  | _, none => []
  | scope, some node => Node.sources answers scope node

/-- The same for a section: the header, the items and the footer. -/
def Section.sources (answers : Path → Option Value) : Scope → Section → List (Option Leaf)
  | scope, .mk _ _ header footer _ children =>
    none :: (Node.sourcesIfAny answers scope header ++ Node.sourcesOfAll answers scope children ++
      Node.sourcesIfAny answers scope footer)

/-- The same for sections side by side. -/
def Section.sourcesOfAll (answers : Path → Option Value) : Scope → List Section → List (Option Leaf)
  | _, [] => []
  | scope, first :: rest =>
    Section.sources answers scope first ++ Section.sourcesOfAll answers scope rest

end

/-- The leaf that each view of a document comes from, in the order of the numbers. -/
def Document.sources (document : Document) (state : Store) : List (Option Leaf) :=
  none :: Node.sourcesOfAll state.get? .empty document.root.children

section Lists

variable (answers : Path → Option Value) (scope : Scope)

theorem Node.sourcesOfAll_eq_flatMap (nodes : List Node) :
    Node.sourcesOfAll answers scope nodes = nodes.flatMap (Node.sources answers scope) := by
  induction nodes with
  | nil => rw [sourcesOfAll, List.flatMap_nil]
  | cons node rest ih => rw [sourcesOfAll, ih, List.flatMap_cons]

theorem Node.sourcesIfAny_eq_flatMap (node : Option Node) :
    Node.sourcesIfAny answers scope node = node.toList.flatMap (Node.sources answers scope) := by
  cases node with
  | none => rw [sourcesIfAny, Option.toList_none, List.flatMap_nil]
  | some node => rw [sourcesIfAny, Option.toList_some, List.flatMap_singleton]

theorem Section.sourcesOfAll_eq_flatMap (sections : List Section) :
    Section.sourcesOfAll answers scope sections =
      sections.flatMap (Section.sources answers scope) := by
  induction sections with
  | nil => rw [sourcesOfAll, List.flatMap_nil]
  | cons first rest ih => rw [sourcesOfAll, ih, List.flatMap_cons]

end Lists

namespace Outline

mutual

/-- The views of an outline, each before those below it. -/
def views : Outline → List View
  | .mk view parts => view :: viewsOfAll parts

/-- The views of outlines side by side. -/
def viewsOfAll : List Outline → List View
  | [] => []
  | first :: rest => first.views ++ viewsOfAll rest

end

mutual

theorem views_entries (parent : Option ViewId) :
    (start : ViewId) → (outline : Outline) →
      (outline.entries parent start).map Arena.Entry.view = outline.views
  | start, .mk view parts => by
    have hparts := views_entriesOfAll (some start) (start + 1) parts
    rw [entries, views, List.map_cons, hparts]

theorem views_entriesOfAll (parent : Option ViewId) :
    (start : ViewId) → (outlines : List Outline) →
      (entriesOfAll parent start outlines).map Arena.Entry.view = viewsOfAll outlines
  | _, [] => rfl
  | start, first :: rest => by
    have hfirst := views_entries parent start first
    have hrest := views_entriesOfAll parent (start + first.size) rest
    rw [entriesOfAll, viewsOfAll, List.map_append, hfirst, hrest]

end

end Outline

/-- The views of an expansion, each before those below it. -/
def Rendered.views (r : Rendered) : List View :=
  r.outline.views

theorem Rendered.views_mk (view : View) (dependencies : List Dependency)
    (children : List Rendered) :
    (Rendered.mk view dependencies children).views = view :: children.flatMap Rendered.views := by
  have hall : Outline.viewsOfAll (outlines children) = children.flatMap Rendered.views := by
    induction children with
    | nil => rfl
    | cons first rest ih => rw [outlines, Outline.viewsOfAll, ih, List.flatMap_cons, views]
  rw [views, outline, Outline.views, hall]

/-- The handlers that views have a use for, given the leaf that each view comes from. -/
def handlersOf (views : List View) (sources : List (Option Leaf)) : List (Option Handler) :=
  List.zipWith (fun view source => source.bind fun leaf => view.kind.handler? leaf) views sources

/-! ### Accounts -/

/-- Whether views hold what their handlers are bound to, and the problems with actions among those
noted are what is wrong with the handlers, once for each view and in order. -/
structure ActionRules.Accounts (rules : ActionRules) (table : ActionTable) (limit : Nat)
    (views : List View) (sources : List (Option Leaf)) (problems : List Problem) : Prop where
  length : sources.length = views.length
  binds : List.Forall₂ (Option.Rel (rules.Binds table limit)) (handlersOf views sources)
    (views.map fun view => view.kind.action?)
  faults : problems.filter Problem.concernsAction =
    (handlersOf views sources).filterMap fun handler => handler.bind (rules.fault? table limit)

/-- The same for the rules and the table of a context. -/
abbrev Context.Accounts (ctx : Context) : List View → List (Option Leaf) → List Problem → Prop :=
  ctx.actions.Accounts ctx.document.actions ctx.limits.actions

namespace ActionRules.Accounts

variable {ctx : Context} {views views' : List View} {sources sources' : List (Option Leaf)}
  {problems problems' : List Problem}

theorem nil : ctx.Accounts [] [] [] :=
  ⟨rfl, .nil, rfl⟩

theorem append (h : ctx.Accounts views sources problems)
    (h' : ctx.Accounts views' sources' problems') :
    ctx.Accounts (views ++ views') (sources ++ sources') (problems ++ problems') := by
  -- Views and sources are paired one by one, so both lists break at the same place.
  have hhandlers : handlersOf (views ++ views') (sources ++ sources') =
      handlersOf views sources ++ handlersOf views' sources' :=
    List.zipWith_append h.length.symm
  refine ⟨?_, ?_, ?_⟩
  · rw [List.length_append, List.length_append, h.length, h'.length]
  · rw [hhandlers, List.map_append]
    exact List.rel_append h.binds h'.binds
  · rw [hhandlers, List.filter_append, List.filterMap_append, h.faults, h'.faults]

/-- Problems with anything but actions do not count. -/
theorem after (hquiet : problems.filter Problem.concernsAction = [])
    (h : ctx.Accounts views sources problems') :
    ctx.Accounts views sources (problems ++ problems') :=
  ⟨h.length, h.binds, by rw [List.filter_append, hquiet, List.nil_append, h.faults]⟩

/-- A view that comes from no leaf, with the views below it. -/
theorem under {view : View} (haction : view.kind.action? = none)
    (h : ctx.Accounts views sources problems) :
    ctx.Accounts (view :: views) (none :: sources) problems := by
  have hview : ctx.Accounts [view] [none] [] := by
    refine ⟨rfl, .cons ?_ .nil, rfl⟩
    show Option.Rel ctx.Binds none view.kind.action?
    rw [haction]
    exact .none
  exact hview.append h

theorem ofLeaf {view : View} {leaf : Leaf} {faults : List Problem}
    (hfaults : problems.filter Problem.concernsAction = faults)
    (h : ctx.LeafLaw leaf (.ok view.kind) faults) :
    ctx.Accounts [view] [some leaf] problems := by
  cases h with
  | ok h =>
    refine ⟨rfl, .cons h .nil, hfaults.trans ?_⟩
    show _ = List.filterMap _ [view.kind.handler? leaf]
    cases hfault : (view.kind.handler? leaf).bind ctx.fault? <;> simp [hfault]

end ActionRules.Accounts

/-! ### What a computation ensures -/

namespace Expanding

variable {α β : Type} {answers : Path → Option Value} {P : α → List Problem → Prop}
  {Q : β → List Problem → Prop}

/-- Whether every result of a computation and the problems noted with it are as required. -/
def Ensures (answers : Path → Option Value) (P : α → List Problem → Prop)
    (x : Expanding α) : Prop :=
  ∀ outcome : Diagnosed α, Reading.value answers x = .ok outcome →
    P outcome.result outcome.diagnostics

namespace Ensures

theorem done {a : α} (h : P a []) : Ensures answers P (pure a) := by
  rintro outcome hvalue
  cases hvalue
  exact h

theorem fail {error : Problem} : Ensures answers P (Expanding.fail error) := by
  rintro outcome hvalue
  cases hvalue

theorem diagnose {error : Problem} {P : Unit → List Problem → Prop} (h : P () [error]) :
    Ensures answers P (Expanding.diagnose error) := by
  rintro outcome hvalue
  cases hvalue
  exact h

theorem bind {x : Expanding α} {f : α → Expanding β} (hx : Ensures answers P x)
    (hf : ∀ a problems, P a problems →
      Ensures answers (fun b others => Q b (problems ++ others)) (f a)) :
    Ensures answers Q (x >>= f) := by
  intro outcome hvalue
  obtain ⟨a, _, b, _, hruns, hnext, rfl, -⟩ := runs_bind.1 ⟨hvalue, rfl⟩
  exact hf a.result a.diagnostics (hx a hruns.1) b hnext.1

theorem bind_pure {x : Expanding α} {g : α → β} (hx : Ensures answers P x)
    (hg : ∀ a problems, P a problems → Q (g a) problems) :
    Ensures answers Q (x >>= fun a => pure (g a)) :=
  hx.bind fun a problems ha => done ((List.append_nil problems).symm ▸ hg a problems ha)

/-- A computation that cannot fail may come first. -/
theorem ofNoting_bind {x : Noting α} {f : α × List Dependency → Expanding β}
    (h : Ensures answers (fun b others => Q b ((x.outcome answers).diagnostics ++ others))
      (f (x.result answers, (x.outcome answers).dependencies))) :
    Ensures answers Q (ofNoting x >>= f) := by
  intro outcome hvalue
  obtain ⟨p, _, b, _, hruns, hnext, rfl, -⟩ := runs_bind.1 ⟨hvalue, rfl⟩
  obtain ⟨rfl, -⟩ := runs_ofNoting.1 hruns
  exact h b hnext.1

/-- One that has nothing to do with handlers does not count. -/
theorem quiet_bind {ctx : Context} {x : Noting α} {f : α × List Dependency → Expanding Rendered}
    {sources : List (Option Leaf)} (hquiet : x.faults answers = [])
    (hf : ∀ dependencies, Ensures answers
      (fun r problems => ctx.Accounts r.views sources problems)
      (f (x.result answers, dependencies))) :
    Ensures answers (fun r problems => ctx.Accounts r.views sources problems)
      (ofNoting x >>= f) :=
  ofNoting_bind fun r hvalue => (hf _ r hvalue).after hquiet

/-- What holds of one part after another holds of all of them. -/
theorem traverse_of_cons {f : α → Expanding β} {P : α → β → List Problem → Prop}
    {Q : List α → List β → List Problem → Prop} (hnil : Q [] [] [])
    (hcons : ∀ part rest b bs problems others, P part b problems → Q rest bs others →
      Q (part :: rest) (b :: bs) (problems ++ others))
    {parts : List α} (h : ∀ part ∈ parts, Ensures answers (P part) (f part)) :
    Ensures answers (Q parts) (Expanding.traverse f parts) := by
  induction parts with
  | nil => exact done hnil
  | cons part rest ih =>
    have hrest := ih fun other hother => h other (List.mem_cons_of_mem part hother)
    refine bind (h part List.mem_cons_self) fun b problems hb => ?_
    exact bind_pure hrest fun bs others hbs => hcons part rest b bs problems others hb hbs

theorem traverse {γ : Type} {ctx : Context} {f : γ → Expanding Rendered}
    {sources : γ → List (Option Leaf)} {parts : List γ}
    (h : ∀ part ∈ parts, Ensures answers
      (fun r problems => ctx.Accounts r.views (sources part) problems) (f part)) :
    Ensures answers
      (fun rs problems => ctx.Accounts (rs.flatMap Rendered.views) (parts.flatMap sources) problems)
      (Expanding.traverse f parts) := by
  refine traverse_of_cons (Q := fun parts rs problems =>
    ctx.Accounts (rs.flatMap Rendered.views) (parts.flatMap sources) problems) .nil ?_ h
  intro part rest r rs problems others hr hrs
  rw [List.flatMap_cons, List.flatMap_cons]
  exact hr.append hrs

end Ensures

end Expanding

open Expanding (Ensures)

/-! ### Nodes and sections -/

namespace Context

variable {leaves : LeafRules} {answers : Path → Option Value}

/-- The view of a leaf holds what its handler is bound to. -/
theorem accounts_leafKind (hleaves : leaves.BlameNoAction) (ctx : Context) (leaf : Leaf) :
    Ensures answers
      (fun p problems => ∀ id slot, ctx.Accounts [⟨p.1, id, slot⟩] [some leaf] problems)
      (ctx.leafKind leaves leaf) := by
  have hlaw := leaves.leafLaw hleaves ctx leaf answers
  rw [leafKind]
  refine Ensures.ofNoting_bind ?_
  generalize hfaults : (leaves.kindOf ctx leaf).faults answers = faults at hlaw
  rw [Noting.faults] at hfaults
  generalize (leaves.kindOf ctx leaf).result answers = result at hlaw ⊢
  cases result with
  | ok kind =>
    refine Ensures.done fun id slot => .ofLeaf ?_ hlaw
    rw [List.append_nil, hfaults]
  | error problem =>
    cases hlaw with
    | error hother =>
      simp only
      split
      · exact .fail
      · -- The problem that takes the place of the leaf is none with an action.
        refine (Ensures.diagnose (P := fun _ problems => problems = [problem]) rfl).bind_pure ?_
        rintro _ _ rfl id slot
        refine .ofLeaf ?_ (.plain rfl rfl)
        rw [List.filter_append, hfaults, List.filter_cons_of_neg (by rw [hother]; decide)]
        rfl

/-- Whether the views of the nodes that are expanded down to a number of levels hold what their
handlers are bound to. -/
def NodesAccount (leaves : LeafRules) (answers : Path → Option Value) (levels : Nat) : Prop :=
  ∀ ctx pending slot node, Ensures answers
    (fun r problems => ctx.Accounts r.views (node.sources answers ctx.scope) problems)
    (Node.expand leaves levels ctx pending slot node)

/-- The same for sections. -/
def SectionsAccount (leaves : LeafRules) (answers : Path → Option Value) (levels : Nat) : Prop :=
  ∀ ctx s, Ensures answers
    (fun r problems => ctx.Accounts r.views (s.sources answers ctx.scope) problems)
    (Section.expand leaves levels ctx s)

variable {levels : Nat} {ctx : Context} {pending : List Dependency} {slot : Slot}

theorem accounts_view {view : View} {sources : List (Option Leaf)} {x : Expanding (List Rendered)}
    (dependencies : List Dependency) (haction : view.kind.action? = none)
    (h : Ensures answers
      (fun rs problems => ctx.Accounts (rs.flatMap Rendered.views) sources problems) x) :
    Ensures answers (fun r problems => ctx.Accounts (Rendered.views r) (none :: sources) problems)
      (x >>= fun children => pure (.mk view dependencies children)) := by
  refine h.bind_pure fun rs problems hrs => ?_
  rw [Rendered.views_mk]
  exact .under haction hrs

theorem accounts_nodes (ih : NodesAccount leaves answers levels) (ctx : Context) (slot : Slot)
    (nodes : List Node) :
    Ensures answers
      (fun rs problems => ctx.Accounts (rs.flatMap Rendered.views)
        (nodes.flatMap (Node.sources answers ctx.scope)) problems)
      (Expanding.traverse (Node.expand leaves levels ctx [] slot) nodes) :=
  Ensures.traverse fun node _ => ih ctx [] slot node

/-- The views of an iteration that is not replaced by its empty view. -/
theorem accounts_iteration (ih : NodesAccount leaves answers levels) (settings : ForEachSettings)
    (template : Node) (source : Option Path) (items : List Value) :
    Ensures answers
      (fun r problems => ctx.Accounts (Rendered.views r)
        (none :: items.zipIdx.flatMap fun item =>
          template.sources answers (ctx.scope.atItem settings source item)) problems)
      (Expanding.ofNoting (ctx.iterationKind settings) >>= fun p =>
        Expanding.traverse (fun (item, i) =>
          Node.expand leaves levels (ctx.push (itemFrame settings source item i)) [] .item
            template) items.zipIdx >>=
          fun children => pure (.mk ⟨p.1, settings.id, slot⟩ (pending ++ p.2) children)) := by
  refine Ensures.quiet_bind (ctx.faults_iterationKind answers settings) fun dependencies => ?_
  rw [ctx.result_iterationKind answers settings]
  -- Each copy of the template is expanded in a scope of its own.
  refine accounts_view _ rfl (Ensures.traverse fun item _ => ?_)
  exact ih (ctx.atItem settings source item) [] .item template

/-- An iteration makes a view of its own, unless the empty view takes its place. -/
theorem accounts_forEach (ih : NodesAccount leaves answers levels) (settings : ForEachSettings)
    (template : Node) (emptyView : Option Node) :
    Ensures answers
      (fun r problems => ctx.Accounts r.views
        ((Node.forEach settings template emptyView).sources answers ctx.scope) problems)
      (Node.expand leaves (levels + 1) ctx pending slot
        (.forEach settings template emptyView)) := by
  rw [Node.expand, Node.sources]
  refine Ensures.quiet_bind (ctx.faults_itemsAt answers settings.items) fun shape => ?_
  rw [ctx.result_itemsAt answers settings.items]
  obtain ⟨items, source⟩ := ctx.scope.itemsAt answers settings.items
  cases items with
  | nil =>
    -- Only an iteration without items can give way to its empty view.
    cases emptyView with
    | none => exact accounts_iteration ih settings template source []
    | some view => exact ih ctx (pending ++ shape) slot view
  | cons item rest => exact accounts_iteration ih settings template source (item :: rest)

theorem accounts_section (ih : NodesAccount leaves answers levels) (s : Section) :
    Ensures answers
      (fun r problems => ctx.Accounts r.views (s.sources answers ctx.scope) problems)
      (Section.expand leaves (levels + 1) ctx s) := by
  obtain ⟨id, settings, header, footer, stickyHeader, children⟩ := s
  rw [Section.expand, Section.sources, Node.sourcesIfAny_eq_flatMap, Node.sourcesOfAll_eq_flatMap,
    Node.sourcesIfAny_eq_flatMap]
  refine (accounts_nodes ih ctx .header header.toList).bind fun hs problems hheader => ?_
  refine (accounts_nodes ih ctx .item children).bind fun is others hitems => ?_
  refine (accounts_nodes ih ctx .footer footer.toList).bind_pure fun fs last hfooter => ?_
  rw [Rendered.views_mk, List.flatMap_append, List.flatMap_append, ← List.append_assoc]
  exact .under rfl ((hheader.append hitems).append hfooter)

/-- The views of nodes and sections hold what their handlers are bound to, however deep these are
expanded. -/
theorem accounts_expand (hleaves : leaves.BlameNoAction) (answers : Path → Option Value)
    (levels : Nat) :
    NodesAccount leaves answers levels ∧ SectionsAccount leaves answers levels := by
  -- A section is one level above its nodes, and a layout of sections one above these, so both
  -- statements go through the levels together.
  induction levels with
  | zero =>
    refine ⟨fun ctx pending slot node => ?_, fun ctx s => ?_⟩
    · rw [Node.expand]
      exact .fail
    · rw [Section.expand]
      exact .fail
  | succ levels ih =>
    obtain ⟨ihNode, ihSection⟩ := ih
    refine ⟨fun ctx pending slot node => ?_, fun ctx s => accounts_section ihNode s⟩
    cases node with
    | container settings children =>
      rw [Node.expand, Node.sources, Node.sourcesOfAll_eq_flatMap]
      refine Ensures.quiet_bind (ctx.faults_containerKind answers settings) fun dependencies => ?_
      rw [ctx.result_containerKind answers settings]
      exact accounts_view _ rfl (accounts_nodes ihNode ctx .item children)
    | sectionLayout id spacing sections =>
      rw [Node.expand, Node.sources, Section.sourcesOfAll_eq_flatMap]
      exact accounts_view _ rfl (Ensures.traverse fun s _ => ihSection ctx s)
    | forEach settings template emptyView => exact accounts_forEach ihNode settings template emptyView
    | spacer space =>
      rw [Node.expand, Node.sources]
      exact .done (.under rfl .nil)
    | component leaf =>
      rw [Node.expand, Node.sources]
      exact (accounts_leafKind hleaves ctx leaf).bind_pure fun p problems hview =>
        hview leaf.id slot

end Context

/-! ### Documents -/

namespace ViewTree

/-- The views of a tree, in the order of their numbers. -/
def views (tree : ViewTree) : List View :=
  tree.arena.entries.toList.map Arena.Entry.view

/-- The actions that a tree holds: those of the screen and that of each view. -/
def boundActions (tree : ViewTree) : List (Option BoundAction) :=
  tree.screen.onAppear :: tree.screen.onDisappear :: tree.views.map fun view => view.kind.action?

/-- The names of the actions that a tree holds by name. -/
def actionNames (tree : ViewTree) : List String :=
  tree.boundActions.filterMap fun action => action.bind BoundAction.name?

theorem mem_actionNames_iff {tree : ViewTree} {id : String} :
    id ∈ tree.actionNames ↔ some (.named id) ∈ tree.boundActions := by
  simp only [actionNames, List.mem_filterMap, Option.bind_eq_some_iff,
    BoundAction.name?_eq_some_iff]
  exact ⟨fun ⟨_, hmem, _, heq, hbound⟩ => hbound ▸ heq ▸ hmem, fun hmem => ⟨_, hmem, _, rfl, rfl⟩⟩

end ViewTree

/-- The handlers of a document that there is a use for, given its views and the state over which
they were made: those of the screen and that of each view. -/
def Document.handlers (document : Document) (state : Store) (views : List View) :
    List (Option Handler) :=
  document.root.actions.onAppear :: document.root.actions.onDisappear ::
    handlersOf views (document.sources state)

/-- The problems with the actions of a table, in its order. -/
def ActionRules.tableFaults (rules : ActionRules) (table : ActionTable) (limit : Nat) :
    List Problem :=
  (rules.readyAll table limit).2.map fun failure => .action failure.1 failure.2

/-- Whether the handlers of a document are settled in a tree that was made over a state. -/
structure Rulebook.Settles (rulebook : Rulebook) (document : Document) (state : Store)
    (tree : ViewTree) : Prop where
  /-- Each view has its place in the document. -/
  sources : (document.sources state).length = tree.size
  /-- The tree holds what the handlers are bound to. -/
  binds : List.Forall₂
    (Option.Rel (rulebook.actions.Binds document.actions rulebook.limits.actions))
    (document.handlers state tree.views) tree.boundActions
  /-- The actions of the tree are those of the table. -/
  actions : tree.actions =
    (rulebook.actions.readyAll document.actions rulebook.limits.actions).1
  /-- The problems with actions are those of the table, and then what is wrong with the handlers,
  once for each view. -/
  faults : tree.diagnostics.filter Problem.concernsAction =
    rulebook.actions.tableFaults document.actions rulebook.limits.actions ++
      (document.handlers state tree.views).filterMap fun handler =>
        handler.bind (rulebook.actions.fault? document.actions rulebook.limits.actions)

namespace Context

variable (ctx : Context) (answers : Path → Option Value) (root : Root)

theorem binds_screen :
    Option.Rel ctx.Binds root.actions.onAppear ((ctx.screen root).result answers).onAppear ∧
      Option.Rel ctx.Binds root.actions.onDisappear
        ((ctx.screen root).result answers).onDisappear := by
  simp only [screen, Noting.result_bind]
  exact ⟨ctx.binds_boundAction? answers _, ctx.binds_boundAction? answers _⟩

theorem faults_screen :
    (ctx.screen root).faults answers =
      (root.actions.onAppear.bind ctx.fault?).toList ++
        (root.actions.onDisappear.bind ctx.fault?).toList := by
  simp [screen]

end Context

namespace Rulebook

variable {rulebook : Rulebook} {document : Document} {state : Store} {tree : ViewTree}
  {index : DependencyIndex}

/-- The problems with a table are all with actions. -/
theorem filter_tableFaults (rules : ActionRules) (table : ActionTable) (limit : Nat) :
    (rules.tableFaults table limit).filter Problem.concernsAction =
      rules.tableFaults table limit := by
  refine List.filter_eq_self.2 fun problem hproblem => ?_
  obtain ⟨failure, -, rfl⟩ := List.mem_map.1 hproblem
  rfl

/-- The views of a tree are those of the expansion that it is made of. -/
theorem views_treeOver (expansion : Diagnosed Expansion) :
    (rulebook.treeOver document state expansion).1.views = expansion.result.root.views := by
  have hentries : (rulebook.treeOver document state expansion).1.arena.entries.toList =
      expansion.result.root.outline.entries none Arena.root :=
    Linked.entries_ofRendered expansion.result.root
  rw [ViewTree.views, hentries, Outline.views_entries, Rendered.views]

/-- The views below the root of an expansion, and the problems noted with them. -/
theorem exists_accounts_of_runs (hleaves : rulebook.leaves.BlameNoAction)
    {expansion : Diagnosed Expansion} {paths : List Path}
    (hruns : (document.expand rulebook.leaves (rulebook.context document)).Runs state.get? expansion
      paths) :
    let screen := (rulebook.context document).screen document.root
    expansion.result.screen = screen.result state.get? ∧
      ∃ problems, expansion.diagnostics =
          (screen.outcome state.get?).diagnostics ++ problems ∧
        (rulebook.context document).Accounts expansion.result.root.views (document.sources state)
          problems := by
  intro screen
  rw [Document.expand] at hruns
  obtain ⟨_, _, _, _, hscreen, hothers, rfl, -⟩ := Expanding.runs_bind.1 hruns
  obtain ⟨rfl, -⟩ := Expanding.runs_ofNoting.1 hscreen
  obtain ⟨children, _, _, _, hchildren, hdone, rfl, -⟩ := Expanding.runs_bind.1 hothers
  obtain ⟨rfl, -⟩ := Expanding.runs_done.1 hdone
  -- What the screen notes comes first, and then what its nodes note.
  have hnodes := (Context.accounts_expand hleaves state.get? rulebook.limits.layout).1
  have hbelow := Context.accounts_nodes hnodes (rulebook.context document) .item
    document.root.children children hchildren.1
  refine ⟨rfl, children.diagnostics, by rw [List.append_nil], ?_⟩
  rw [Rendered.views_mk, Document.sources, Node.sourcesOfAll_eq_flatMap]
  exact hbelow.under rfl

/-- The handlers of a document are settled in its tree. -/
theorem settles_of_build (hleaves : rulebook.leaves.BlameNoAction)
    (hbuild : rulebook.build document state true = .ok (tree, index)) :
    rulebook.Settles document state tree := by
  obtain ⟨expansion, hruns, htree⟩ := build_eq_ok_iff.1 hbuild
  obtain rfl : (rulebook.treeOver document state expansion).1 = tree := congrArg Prod.fst htree
  obtain ⟨hscreen, problems, hproblems, haccounts⟩ := exists_accounts_of_runs hleaves hruns
  obtain ⟨hAppear, hDisappear⟩ :=
    (rulebook.context document).binds_screen state.get? document.root
  have hfaults := (rulebook.context document).faults_screen state.get? document.root
  rw [Noting.faults] at hfaults
  have hviews : (rulebook.treeOver document state expansion).1.views =
      expansion.result.root.views :=
    views_treeOver expansion
  have hshown : (rulebook.treeOver document state expansion).1.screen = expansion.result.screen :=
    rfl
  have hdiagnostics : (rulebook.treeOver document state expansion).1.diagnostics =
      rulebook.actions.tableFaults document.actions rulebook.limits.actions ++
        expansion.diagnostics := rfl
  refine ⟨?_, ?_, rfl, ?_⟩
  · have hlength := congrArg List.length hviews
    rw [ViewTree.views, List.length_map] at hlength
    exact haccounts.length.trans hlength.symm
  · rw [Document.handlers, ViewTree.boundActions, hviews, hshown, hscreen]
    exact .cons hAppear (.cons hDisappear haccounts.binds)
  · rw [hdiagnostics, List.filter_append, filter_tableFaults, hproblems, List.filter_append, hfaults,
      haccounts.faults, Document.handlers, hviews]
    simp only [List.filterMap_eq_flatMap_toList, List.flatMap_cons, List.append_assoc]
    rfl

/-- A tree in which the handlers are settled has an action for each name that it holds. -/
theorem Settles.contains (h : rulebook.Settles document state tree) {id : String}
    (hheld : id ∈ tree.actionNames) : Fields.contains tree.actions id = true := by
  obtain ⟨i, hi⟩ := List.mem_iff_get.1 (ViewTree.mem_actionNames_iff.1 hheld)
  have hlt : i < (document.handlers state tree.views).length := by
    rw [h.binds.length_eq]
    exact i.isLt
  have hrel := h.binds.get hlt i.isLt
  rw [hi] at hrel
  generalize (document.handlers state tree.views).get _ = handler at hrel
  cases hrel with
  | some hbinds =>
    -- A name is kept only if the table has it, and the tree has an action for each name in it.
    cases hbinds with
    | named hknown =>
      rw [h.actions, Fields.contains, ActionRules.get?_entries, Option.isSome_map]
      exact hknown

/-- In the place of a handler that something is wrong with, a settled tree does nothing. -/
theorem Settles.noop (h : rulebook.Settles document state tree) {i : Nat} {handler : Handler}
    {problem : Problem} (hhandler : (document.handlers state tree.views)[i]? = some (some handler))
    (hfault : rulebook.actions.fault? document.actions rulebook.limits.actions handler =
      some problem) :
    tree.boundActions[i]? = some (some (.inline .noop)) := by
  obtain ⟨hlt, hget⟩ := List.getElem?_eq_some_iff.1 hhandler
  have hlt' : i < tree.boundActions.length := h.binds.length_eq ▸ hlt
  have hrel := h.binds.get hlt hlt'
  rw [List.get_eq_getElem, List.get_eq_getElem, hget] at hrel
  rw [List.getElem?_eq_getElem hlt']
  generalize tree.boundActions[i] = action at hrel
  cases hrel with
  | some hbinds => rw [hbinds.eq_noop hfault]

/-- In a settled tree, a problem with an action is noted once for each action of the table and each
handler that has it. -/
theorem Settles.count_diagnostics (h : rulebook.Settles document state tree) {problem : Problem}
    (hproblem : problem.concernsAction = true) :
    tree.diagnostics.count problem =
      (rulebook.actions.tableFaults document.actions rulebook.limits.actions).count problem +
        (document.handlers state tree.views).countP fun handler =>
          handler.bind (rulebook.actions.fault? document.actions rulebook.limits.actions) ==
            some problem := by
  rw [← List.count_filter hproblem, h.faults, List.count_append, List.count_filterMap]

end Rulebook

end ScreenDoc
