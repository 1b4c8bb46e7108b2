import ScreenDoc.Proofs.Expansion.Levels
import ScreenDoc.Proofs.Expansion.Planted
import ScreenDoc.Proofs.Store.Written

/-!
# Where views come from

Every view of a tree has been made by a node of the layout. A leaf is expanded once for each item of
the iterations around it, each time within a scope of its own. In such a scope, each bound name that
has a place in the state has the value that lies there, and the place can be written as a path. A
scope without frames belongs to a leaf outside of all iterations.

## Main definitions

- `Scope.Placed` — the places of bound names have their values, and can be written
- `Node.Expands`, `Document.Expands` — a leaf is expanded within a scope
- `Node.HasOuter`, `Document.HasOuter` — a leaf stands outside of all iterations
- `ViewLaw` — a property of views that can be told from how leaves become views

## Main results

- `Document.Expands.placed` — the scope of an occurrence is placed in the state
- `Document.Expands.hasOuter` — a scope without frames belongs to a leaf outside of all iterations
- `ViewLaw.of_build` — all views of a tree have such a property, and their dependencies are recorded
-/

namespace ScreenDoc

/-! ### Scopes over a state -/

namespace Scope

/-- Whether a binding that has a place in the state has the value that lies there, and the place can
be written. -/
def Entry.Placed (entry : Entry) (store : Store) : Prop :=
  ∀ source, entry.source = some source → source.Written ∧ store.get? source = some entry.value

/-- Whether this is so for every bound name. -/
def Placed (scope : Scope) (store : Store) : Prop :=
  ∀ frame ∈ scope.frames, ∀ field ∈ frame, field.2.Placed store

variable {scope : Scope} {store : Store}

theorem eq_empty_of_depth_eq_zero (h : scope.depth = 0) : scope = empty :=
  congrArg mk (List.length_eq_zero_iff.1 h)

theorem placed_empty (store : Store) : empty.Placed store := by
  intro frame hframe
  exact absurd hframe List.not_mem_nil

theorem Placed.mirrors (h : scope.Placed store) : scope.Mirrors store := by
  intro frame hframe field hfield source hsource
  obtain ⟨hwritten, hget⟩ := h frame hframe field hfield source hsource
  exact ⟨hwritten.rooted, hget⟩

/-- The place that a path with a bound root leads to can be written, and the value lies there. -/
theorem Placed.lookup (h : scope.Placed store) {path : Path} (hpath : path.Written) {hit : Hit}
    (hhit : scope.lookup path = some hit) {place : Path} (hplace : hit.source = some place) :
    place.Written ∧ store.get? place = hit.value := by
  have htwins := (Twins.refl h.mirrors).lookup path
  rw [hhit] at htwins
  cases htwins with
  | some hsame =>
    refine ⟨?_, hsame.before place hplace⟩
    simp only [Scope.lookup, Option.bind_eq_bind, Option.bind_eq_some_iff,
      Option.some.injEq] at hhit
    obtain ⟨name, -, entry, hentry, rfl⟩ := hhit
    obtain ⟨source, hsource, rfl⟩ := Option.map_eq_some_iff.1 hplace
    obtain ⟨frame, hframe, hget⟩ := List.exists_of_findSome?_eq_some hentry
    exact (h frame hframe _ (Fields.mem_of_get? hget) source hsource).1.append_drop hpath

/-- The names of an iteration keep a scope placed, if the items lie where the array does. -/
theorem Placed.push_itemFrame (h : scope.Placed store) {items : List Value} {source : Option Path}
    (hitems : ∀ array, source = some array →
      array.Written ∧ ∀ i : Nat, store.get? (array.index i) = items[i]?)
    (settings : ForEachSettings) {item : Value} {i : Nat} (hitem : items[i]? = some item) :
    (scope.push (Context.itemFrame settings source item i)).Placed store := by
  intro frame hframe
  rcases List.mem_cons.1 hframe with rfl | hframe
  · intro field hfield place hplace
    rcases Fields.mem_insert hfield with rfl | hfield
    · cases hplace
    · obtain rfl := (Fields.mem_insert hfield).resolve_right List.not_mem_nil
      obtain ⟨array, harray, rfl⟩ := Option.map_eq_some_iff.1 hplace
      obtain ⟨hwritten, hget⟩ := hitems array harray
      exact ⟨hwritten.index i, (hget i).trans hitem⟩
  · exact h frame hframe

/-- The place that a path stands for can be written, and the scope gives the value that lies
there. -/
theorem Placed.sourcePath (h : scope.Placed store) {path place : Path} (hpath : path.Written)
    (hplace : scope.sourcePath path = some place) :
    place.Written ∧ scope.overlay store.get? path = store.get? place := by
  rw [Scope.sourcePath] at hplace
  rw [overlay]
  cases hlookup : scope.lookup path with
  | none =>
    rw [hlookup] at hplace
    obtain rfl : path = place := Option.some.inj hplace
    exact ⟨hpath, rfl⟩
  | some hit =>
    rw [hlookup] at hplace
    obtain ⟨hwritten, hget⟩ := h.lookup hpath hlookup hplace
    exact ⟨hwritten, hget.symm⟩

/-- The items of an iteration lie where the array does. -/
theorem Placed.itemsAt (h : scope.Placed store) (text : String) {array : Path}
    (harray : (scope.itemsAt store.get? text).2 = some array) :
    array.Written ∧ ∀ i : Nat,
      store.get? (array.index i) = (scope.itemsAt store.get? text).1[i]? := by
  rw [Scope.itemsAt] at harray ⊢
  cases htext : Path.ofText? text with
  | none =>
    rw [htext] at harray
    cases harray
  | some path =>
    rw [htext] at harray
    obtain ⟨hwritten, hvalue⟩ := h.sourcePath (Path.written_of_ofChars? htext).1 harray
    refine ⟨hwritten, fun i => ?_⟩
    simp only
    rw [Context.getElem?_itemsOf, value_readPath, hvalue]
    exact Store.get?_append ⟨[.index i]⟩ hwritten.rooted

/-- The scope of an item is placed if the scope around the iteration is. -/
theorem Placed.atItem (h : scope.Placed store) (settings : ForEachSettings) {item : Value × Nat}
    (hitem : item ∈ (scope.itemsAt store.get? settings.items).1.zipIdx) :
    (scope.atItem settings (scope.itemsAt store.get? settings.items).2 item).Placed store :=
  h.push_itemFrame (fun _ harray => h.itemsAt settings.items harray) settings
    (List.mk_mem_zipIdx_iff_getElem?.1 hitem)

end Scope

/-! ### Occurrences -/

/-- Whether a leaf is expanded within an inner scope when a node is expanded within an outer one. -/
inductive Node.Expands (answers : Path → Option Value) (inner : Scope) (leaf : Leaf) :
    Scope → Node → Prop where
  | component : Node.Expands answers inner leaf inner (.component leaf)
  | container {scope : Scope} {settings : ContainerSettings} {children : List Node} {child : Node}
      (hchild : child ∈ children) (h : Node.Expands answers inner leaf scope child) :
      Node.Expands answers inner leaf scope (.container settings children)
  | inSection {scope : Scope} {id : Option String} {spacing : Option Float}
      {sections : List Section} {sectionId : Option String} {settings : SectionSettings}
      {header footer : Option Node} {sticky : Bool} {children : List Node} {view : Node}
      (hsection : Section.mk sectionId settings header footer sticky children ∈ sections)
      (hview : view ∈ header.toList ++ children ++ footer.toList)
      (h : Node.Expands answers inner leaf scope view) :
      Node.Expands answers inner leaf scope (.sectionLayout id spacing sections)
  /-- The template is expanded for each item. -/
  | template {scope : Scope} {settings : ForEachSettings} {template : Node}
      {emptyView : Option Node} {item : Value × Nat}
      (hitem : item ∈ (scope.itemsAt answers settings.items).1.zipIdx)
      (h : Node.Expands answers inner leaf
        (scope.atItem settings (scope.itemsAt answers settings.items).2 item) template) :
      Node.Expands answers inner leaf scope (.forEach settings template emptyView)
  /-- The empty view is expanded if there are no items. -/
  | emptyView {scope : Scope} {settings : ForEachSettings} {template view : Node}
      (hempty : (scope.itemsAt answers settings.items).1 = [])
      (h : Node.Expands answers inner leaf scope view) :
      Node.Expands answers inner leaf scope (.forEach settings template (some view))

/-- Whether a leaf of a document is expanded within a scope. -/
def Document.Expands (document : Document) (state : Store) (inner : Scope) (leaf : Leaf) : Prop :=
  ∃ node ∈ document.root.children, node.Expands state.get? inner leaf .empty

theorem Node.Expands.placed {state : Store} {inner : Scope} {leaf : Leaf} {scope : Scope}
    {node : Node} (h : node.Expands state.get? inner leaf scope) (hscope : scope.Placed state) :
    inner.Placed state := by
  induction h with
  | component => exact hscope
  | container _ _ ih => exact ih hscope
  | inSection _ _ _ ih => exact ih hscope
  | template hitem _ ih => exact ih (hscope.atItem _ hitem)
  | emptyView _ _ ih => exact ih hscope

theorem Document.Expands.placed {document : Document} {state : Store} {inner : Scope} {leaf : Leaf}
    (h : document.Expands state inner leaf) : inner.Placed state := by
  obtain ⟨node, -, hnode⟩ := h
  exact hnode.placed (Scope.placed_empty state)

/-! ### Leaves outside of iterations -/

mutual

/-- Whether a leaf stands in a node outside of the iterations below it. -/
inductive Node.HasOuter (leaf : Leaf) : Node → Prop where
  | component : Node.HasOuter leaf (.component leaf)
  | container {settings : ContainerSettings} {children : List Node} {child : Node}
    (hchild : child ∈ children) (h : Node.HasOuter leaf child) :
    Node.HasOuter leaf (.container settings children)
  | sectionLayout {id : Option String} {spacing : Option Float} {sections : List Section}
    {s : Section} (hs : s ∈ sections) (h : Section.HasOuter leaf s) :
    Node.HasOuter leaf (.sectionLayout id spacing sections)
  /-- The empty view is no part of its iteration. -/
  | emptyView {settings : ForEachSettings} {template view : Node} (h : Node.HasOuter leaf view) :
    Node.HasOuter leaf (.forEach settings template (some view))

/-- The same for a section. -/
inductive Section.HasOuter (leaf : Leaf) : Section → Prop where
  | header {id : Option String} {settings : SectionSettings} {header footer : Option Node}
    {sticky : Bool} {children : List Node} {view : Node} (hview : view ∈ header.toList)
    (h : Node.HasOuter leaf view) :
    Section.HasOuter leaf (.mk id settings header footer sticky children)
  | child {id : Option String} {settings : SectionSettings} {header footer : Option Node}
    {sticky : Bool} {children : List Node} {view : Node} (hview : view ∈ children)
    (h : Node.HasOuter leaf view) :
    Section.HasOuter leaf (.mk id settings header footer sticky children)
  | footer {id : Option String} {settings : SectionSettings} {header footer : Option Node}
    {sticky : Bool} {children : List Node} {view : Node} (hview : view ∈ footer.toList)
    (h : Node.HasOuter leaf view) :
    Section.HasOuter leaf (.mk id settings header footer sticky children)

end

/-- Whether a leaf stands in a document outside of all iterations. -/
def Document.HasOuter (document : Document) (leaf : Leaf) : Prop :=
  ∃ node ∈ document.root.children, node.HasOuter leaf

section Outer

variable {answers : Path → Option Value} {inner scope : Scope} {leaf : Leaf} {node : Node}

/-- On the way to an occurrence, frames are only added. -/
theorem Node.Expands.depth_le (h : node.Expands answers inner leaf scope) :
    scope.depth ≤ inner.depth := by
  induction h with
  | component => exact Nat.le_refl _
  | container _ _ ih => exact ih
  | inSection _ _ _ ih => exact ih
  | template _ _ ih => exact Nat.le_of_succ_le ih
  | emptyView _ _ ih => exact ih

theorem Node.Expands.hasOuter (h : node.Expands answers inner leaf scope)
    (hdepth : inner.depth = 0) : node.HasOuter leaf := by
  induction h with
  | component => exact .component
  | container hchild _ ih => exact .container hchild ih
  | inSection hsection hview _ ih =>
    refine .sectionLayout hsection ?_
    rcases List.mem_append.1 hview with hview | hfooter
    · rcases List.mem_append.1 hview with hheader | hchild
      · exact .header hheader ih
      · exact .child hchild ih
    · exact .footer hfooter ih
  | template _ hexpands _ =>
    -- A template is expanded in a scope that has a frame.
    have hle := hexpands.depth_le
    rw [hdepth] at hle
    exact absurd hle (Nat.not_succ_le_zero _)
  | emptyView _ _ ih => exact .emptyView ih

/-- A scope without frames belongs to a leaf outside of all iterations. -/
theorem Document.Expands.hasOuter {document : Document} {state : Store}
    (h : document.Expands state inner leaf) (hdepth : inner.depth = 0) :
    document.HasOuter leaf := by
  obtain ⟨node, hnode, hexpands⟩ := h
  exact ⟨node, hnode, hexpands.hasOuter hdepth⟩

end Outer

/-! ### What a computation gives -/

namespace Expanding

variable {α β : Type} {answers : Path → Option Value}

/-- Whether a computation succeeds with a result, whatever problems it notes. -/
def Gives (answers : Path → Option Value) (x : Expanding α) (a : α) : Prop :=
  ∃ problems, Reading.value answers x = .ok ⟨a, problems⟩

theorem Runs.gives {x : Expanding α} {outcome : Diagnosed α} {paths : List Path}
    (h : x.Runs answers outcome paths) : x.Gives answers outcome.result :=
  ⟨outcome.diagnostics, h.1⟩

theorem Gives.eq_of_pure {a b : α} (h : (pure a : Expanding α).Gives answers b) : b = a := by
  obtain ⟨problems, hvalue⟩ := h
  cases hvalue
  rfl

theorem not_gives_fail {error : Problem} {a : α} :
    ¬ (fail error : Expanding α).Gives answers a := by
  rintro ⟨problems, hvalue⟩
  cases hvalue

theorem Gives.of_bind {x : Expanding α} {f : α → Expanding β} {b : β}
    (h : (x >>= f).Gives answers b) : ∃ a, x.Gives answers a ∧ (f a).Gives answers b := by
  obtain ⟨problems, hvalue⟩ := h
  obtain ⟨a, first, c, rest, hx, hf, heq, -⟩ := runs_bind.1 ⟨hvalue, rfl⟩
  cases heq
  exact ⟨a.result, hx.gives, hf.gives⟩

theorem Gives.eq_of_ofNoting {x : Noting α} {p : α × List Dependency}
    (h : (ofNoting x).Gives answers p) :
    p = ((x.outcome answers).result, (x.outcome answers).dependencies) := by
  obtain ⟨problems, hvalue⟩ := h
  obtain ⟨heq, -⟩ := runs_ofNoting.1 ⟨hvalue, rfl⟩
  cases heq
  rfl

/-- What holds of every result of a step holds of all results of a traversal. -/
theorem Gives.forall_of_traverse {f : α → Expanding β} {P : β → Prop} {as : List α} {bs : List β}
    (h : (traverse f as).Gives answers bs) (hf : ∀ a ∈ as, ∀ b, (f a).Gives answers b → P b) :
    ∀ b ∈ bs, P b := by
  induction as generalizing bs with
  | nil =>
    obtain rfl := h.eq_of_pure
    intro b hb
    exact absurd hb List.not_mem_nil
  | cons a rest ih =>
    obtain ⟨first, hfirst, hothers⟩ := h.of_bind
    obtain ⟨others, hrest, hdone⟩ := hothers.of_bind
    obtain rfl := hdone.eq_of_pure
    refine List.forall_mem_cons.2 ⟨hf a List.mem_cons_self first hfirst, ?_⟩
    exact ih hrest fun b hb => hf b (List.mem_cons_of_mem a hb)

end Expanding

/-! ### Laws of views -/

/-- Whether all views of an expansion have a property together with their dependencies. -/
def Rendered.Obeys (Q : View → List Dependency → Prop) (r : Rendered) : Prop :=
  Rendered.Alike (fun view dependencies _ => Q view dependencies) r r

theorem Rendered.Obeys.mk {Q : View → List Dependency → Prop} {view : View}
    {dependencies : List Dependency} {children : List Rendered} (hview : Q view dependencies)
    (hchildren : ∀ child ∈ children, child.Obeys Q) :
    Rendered.Obeys Q (.mk view dependencies children) :=
  Rendered.Alike.mk hview (List.forall₂_same.2 hchildren)

theorem Rendered.Obeys.childless {Q : View → List Dependency → Prop} {view : View}
    {dependencies : List Dependency} (hview : Q view dependencies) :
    Rendered.Obeys Q (.mk view dependencies []) :=
  .mk hview fun _ hchild => absurd hchild List.not_mem_nil

/-- A container has no values of its own. -/
theorem Context.held_container (answers : Path → Option Value) (style : Noting FinalStyle)
    (axis : StackAxis) (alignment : Alignment) :
    ((style.bind fun style => Noting.done (ViewKind.container axis alignment style)).outcome
      answers).result.held = [] := by
  rw [Noting.outcome_bind]
  rfl

/-- A property of views and their dependencies that can be told from how leaves become views where
they occur. -/
structure ViewLaw (leaves : LeafRules) (ctx : Context) (answers : Path → Option Value)
    (occurs : Scope → Leaf → Prop) (Q : View → List Dependency → Prop) : Prop where
  /-- Views without values have it. -/
  plain : ∀ (view : View) (dependencies : List Dependency), view.kind.held = [] →
    Q view dependencies
  /-- The view that an occurrence of a leaf becomes has it. -/
  leaf : ∀ (scope : Scope) (leaf : Leaf), occurs scope leaf → ∀ kind,
    let noted := (leaves.kindOf (ctx.withScope scope) leaf).outcome answers
    noted.result = .ok kind → ∀ id slot pending, Q ⟨kind, id, slot⟩ (pending ++ noted.dependencies)

namespace ViewLaw

variable {leaves : LeafRules} {ctx : Context} {answers : Path → Option Value}
  {occurs : Scope → Leaf → Prop} {Q : View → List Dependency → Prop}

/-- Whether the views of all nodes that are expanded down to a number of levels have a property, if
their leaves occur. -/
def OfNodes (leaves : LeafRules) (ctx : Context) (answers : Path → Option Value)
    (occurs : Scope → Leaf → Prop) (Q : View → List Dependency → Prop) (levels : Nat) : Prop :=
  ∀ scope pending slot node view, (∀ inner leaf, Node.Expands answers inner leaf scope node →
    occurs inner leaf) → (Node.expand leaves levels (ctx.withScope scope) pending slot node).Gives
      answers view → view.Obeys Q

/-- The same for sections. -/
def OfSections (leaves : LeafRules) (ctx : Context) (answers : Path → Option Value)
    (occurs : Scope → Leaf → Prop) (Q : View → List Dependency → Prop) (levels : Nat) : Prop :=
  ∀ scope id settings header footer sticky children view,
    (∀ node ∈ Option.toList header ++ children ++ Option.toList footer, ∀ inner leaf,
      Node.Expands answers inner leaf scope node → occurs inner leaf) →
        (Section.expand leaves levels (ctx.withScope scope)
          (.mk id settings header footer sticky children)).Gives answers view → view.Obeys Q

variable {levels : Nat} {scope : Scope} {pending : List Dependency} {slot : Slot} {view : Rendered}

/-- The nodes in one slot of a view. -/
theorem of_nodes (ih : OfNodes leaves ctx answers occurs Q levels) {nodes : List Node}
    {views : List Rendered}
    (hoccurs : ∀ node ∈ nodes, ∀ inner leaf, Node.Expands answers inner leaf scope node →
      occurs inner leaf)
    (hviews : (Expanding.traverse (Node.expand leaves levels (ctx.withScope scope) [] slot)
      nodes).Gives answers views) : ∀ view ∈ views, view.Obeys Q :=
  hviews.forall_of_traverse fun node hnode view =>
    ih scope [] slot node view (hoccurs node hnode)

theorem of_leaf (h : ViewLaw leaves ctx answers occurs Q) {leaf : Leaf}
    (hoccurs : occurs scope leaf)
    (hview : (Node.expand leaves (levels + 1) (ctx.withScope scope) pending slot
      (.component leaf)).Gives answers view) : view.Obeys Q := by
  rw [Node.expand] at hview
  obtain ⟨⟨kind, dependencies⟩, hkind, hdone⟩ := hview.of_bind
  obtain rfl := hdone.eq_of_pure
  refine .childless ?_
  obtain ⟨⟨result, dependencies'⟩, hnoted, hrest⟩ := hkind.of_bind
  have hresult := hnoted.eq_of_ofNoting
  rw [Prod.mk.injEq] at hresult
  obtain ⟨rfl, rfl⟩ := hresult
  simp only at hrest
  split at hrest
  · next made hmade =>
    obtain ⟨rfl, rfl⟩ := Prod.mk.inj hrest.eq_of_pure
    exact h.leaf scope leaf hoccurs kind hmade leaf.id slot pending
  · split at hrest
    · exact absurd hrest Expanding.not_gives_fail
    · obtain ⟨-, -, hunknown⟩ := hrest.of_bind
      obtain ⟨rfl, rfl⟩ := Prod.mk.inj hunknown.eq_of_pure
      exact h.plain _ _ rfl

theorem of_forEach (h : ViewLaw leaves ctx answers occurs Q)
    (ih : OfNodes leaves ctx answers occurs Q levels) {settings : ForEachSettings}
    {template : Node} {emptyView : Option Node}
    (hoccurs : ∀ inner leaf, Node.Expands answers inner leaf scope
      (.forEach settings template emptyView) → occurs inner leaf)
    (hview : (Node.expand leaves (levels + 1) (ctx.withScope scope) pending slot
      (.forEach settings template emptyView)).Gives answers view) : view.Obeys Q := by
  rw [Node.expand] at hview
  obtain ⟨⟨⟨items, source⟩, shape⟩, hfound, hviews⟩ := hview.of_bind
  have hfound : (items, source) = scope.itemsAt answers settings.items :=
    (Prod.mk.inj hfound.eq_of_ofNoting).1.trans ((ctx.withScope scope).result_itemsAt answers _)
  have hitems : items = (scope.itemsAt answers settings.items).1 := congrArg Prod.fst hfound
  have hsource : source = (scope.itemsAt answers settings.items).2 := congrArg Prod.snd hfound
  simp only at hviews
  split at hviews
  · exact ih _ _ _ _ _ (fun inner leaf hleaf => hoccurs inner leaf (.emptyView hitems.symm hleaf))
      hviews
  · obtain ⟨⟨kind, dependencies⟩, hkind, hchildren⟩ := hviews.of_bind
    obtain ⟨rfl, rfl⟩ := Prod.mk.inj hkind.eq_of_ofNoting
    obtain ⟨children, htraverse, hdone⟩ := hchildren.of_bind
    obtain rfl := hdone.eq_of_pure
    refine .mk (h.plain _ _ (Context.held_container _ _ _ _)) (htraverse.forall_of_traverse ?_)
    intro item hitem view htemplate
    rw [hitems] at hitem
    refine ih _ _ _ _ _ (fun inner leaf hleaf => hoccurs inner leaf (.template hitem ?_)) htemplate
    rw [← hsource]
    exact hleaf

theorem of_section (h : ViewLaw leaves ctx answers occurs Q)
    (ih : OfNodes leaves ctx answers occurs Q levels) :
    OfSections leaves ctx answers occurs Q (levels + 1) := by
  intro scope id settings header footer sticky children view hoccurs hview
  obtain ⟨hbefore, hfooter⟩ := List.forall_mem_append.1 hoccurs
  obtain ⟨hheader, hchildren⟩ := List.forall_mem_append.1 hbefore
  rw [Section.expand] at hview
  obtain ⟨headers, hheaders, hafterHeader⟩ := hview.of_bind
  obtain ⟨items, hitems, hafterItems⟩ := hafterHeader.of_bind
  obtain ⟨footers, hfooters, hdone⟩ := hafterItems.of_bind
  obtain rfl := hdone.eq_of_pure
  refine .mk (h.plain _ _ rfl) ?_
  exact List.forall_mem_append.2 ⟨List.forall_mem_append.2
    ⟨of_nodes ih hheader hheaders, of_nodes ih hchildren hitems⟩, of_nodes ih hfooter hfooters⟩

/-- The views of nodes and sections have the property, however deep these are expanded. -/
theorem of_expand (h : ViewLaw leaves ctx answers occurs Q) (levels : Nat) :
    OfNodes leaves ctx answers occurs Q levels ∧ OfSections leaves ctx answers occurs Q levels := by
  induction levels with
  | zero =>
    refine ⟨?_, ?_⟩
    · intro scope pending slot node view _ hview
      rw [Node.expand] at hview
      exact absurd hview Expanding.not_gives_fail
    · intro scope id settings header footer sticky children view _ hview
      rw [Section.expand] at hview
      exact absurd hview Expanding.not_gives_fail
  | succ levels ih =>
    obtain ⟨ihNode, ihSection⟩ := ih
    refine ⟨?_, h.of_section ihNode⟩
    intro scope pending slot node view hoccurs hview
    cases node with
    | container settings children =>
      rw [Node.expand] at hview
      obtain ⟨⟨kind, dependencies⟩, hkind, hchildren⟩ := hview.of_bind
      obtain ⟨rfl, rfl⟩ := Prod.mk.inj hkind.eq_of_ofNoting
      obtain ⟨views, hviews, hdone⟩ := hchildren.of_bind
      obtain rfl := hdone.eq_of_pure
      refine .mk (h.plain _ _ (Context.held_container _ _ _ _)) (of_nodes ihNode ?_ hviews)
      exact fun child hchild inner leaf hleaf => hoccurs inner leaf (.container hchild hleaf)
    | sectionLayout id spacing sections =>
      rw [Node.expand] at hview
      obtain ⟨views, hviews, hdone⟩ := hview.of_bind
      obtain rfl := hdone.eq_of_pure
      refine .mk (h.plain _ _ rfl) (hviews.forall_of_traverse fun s hs made => ?_)
      obtain ⟨sectionId, settings, header, footer, sticky, children⟩ := s
      exact ihSection scope _ _ _ _ _ _ made fun node hnode inner leaf hleaf =>
        hoccurs inner leaf (.inSection hs hnode hleaf)
    | forEach settings template emptyView => exact h.of_forEach ihNode hoccurs hview
    | spacer space =>
      rw [Node.expand] at hview
      obtain rfl := hview.eq_of_pure
      exact .childless (h.plain _ _ rfl)
    | component leaf => exact h.of_leaf (hoccurs scope leaf .component) hview

/-- All views of a tree have the property, and their dependencies that lead into the state are
recorded. -/
theorem of_build {rulebook : Rulebook} {document : Document} {state : Store} {track : Bool}
    (h : ViewLaw rulebook.leaves
      (Context.ofDocument document rulebook.limits track rulebook.actions) state.get?
      (document.Expands state) Q) {tree : ViewTree} {index : DependencyIndex}
    (hbuild : rulebook.build document state track = .ok (tree, index)) {id : ViewId} {view : View}
    (hview : tree.arena.get? id = some view) :
    ∃ dependencies, Q view dependencies ∧
      ∀ d ∈ dependencies, d.path.firstKey?.isSome → ⟨id, d⟩ ∈ index.entries := by
  rw [Rulebook.build_eq] at hbuild
  obtain ⟨⟨expansion, problems⟩, hvalue, htree⟩ := exists_of_map_eq_ok hbuild
  have hroot : expansion.root.Obeys Q := by
    have hgives : (document.expand rulebook.leaves (Context.ofDocument document rulebook.limits
      track rulebook.actions)).Gives state.get? expansion := ⟨problems, hvalue⟩
    rw [Document.expand] at hgives
    obtain ⟨⟨screen, dependencies⟩, -, hchildren⟩ := hgives.of_bind
    obtain ⟨views, hviews, hdone⟩ := hchildren.of_bind
    rw [hdone.eq_of_pure]
    refine .mk (h.plain _ _ rfl) ?_
    exact of_nodes (h.of_expand _).1
      (fun node hnode inner leaf hleaf => ⟨node, hnode, hleaf⟩) hviews
  obtain rfl : (rulebook.treeOver document state ⟨expansion, problems⟩).1 = tree :=
    congrArg Prod.fst htree
  obtain rfl : (rulebook.treeOver document state ⟨expansion, problems⟩).2 = index :=
    congrArg Prod.snd htree
  exact (Linked.Alike.ofRendered hroot).view id view view hview hview

end ViewLaw

end ScreenDoc
