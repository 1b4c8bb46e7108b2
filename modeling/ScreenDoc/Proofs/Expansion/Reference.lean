import ScreenDoc.Proofs.View.Outline

/-!
# The reference expansion

What the views of a document are, by recursion on the document alone: without levels, numbers,
dependencies or problems. How deep the views are nested is a second recursion of the same shape.

## Main definitions

- `Scope.itemsAt` — the array that an iteration runs over, with the place where it lies
- `Node.outline`, `Section.outline` — the views of a part of the layout
- `Node.nesting`, `Section.nesting` — how deep these views are nested
- `Rulebook.outline` — the views of a document

## Main results

- `Scope.innermost?_atItem` — what names stand for in the template of an iteration
- `Node.deepest_le`, `Section.nesting_mk_le` — when nodes and sections fit into a number of levels
-/

namespace ScreenDoc

/-! ### Parts of a view -/

/-- The array that a text leads to within a scope, and where in the state it lies. What is no array
has no items, and a text that is no path is evaluated. -/
def Scope.itemsAt (scope : Scope) (answers : Path → Option Value) (text : String) :
    List Value × Option Path :=
  match Path.ofText? text with
  | some path =>
    (Context.itemsOf ((scope.readPath path).value answers), scope.sourcePath path)
  | none => (Context.itemsOf (some ((Expr.eval scope text.toList).value answers)), none)

/-- The scope of the template for an item of an iteration and its position. -/
def Scope.atItem (scope : Scope) (settings : ForEachSettings) (source : Option Path)
    (item : Value × Nat) : Scope :=
  scope.push (Context.itemFrame settings source item.1 item.2)

/-- The result of a computation, without its notes. -/
def Noting.result {α : Type} (answers : Path → Option Value) (x : Noting α) : α :=
  (x.outcome answers).result

namespace Context

/-- The final style of a view. A chain that is broken leaves only the inline properties. -/
def shownStyle (ctx : Context) (id : Option String) (inline : Option StyleLayer)
    (own : OwnProperties) : FinalStyle :=
  match ctx.document.styles.effective ctx.limits.styles id inline with
  | .ok style => .ofLayer style own
  | .error _ => .ofLayer (inline.getD .unset) own

/-- What a container shows. -/
def shownContainer (ctx : Context) (settings : ContainerSettings) : ViewKind :=
  .container settings.kind (settings.alignment.getD .center)
    (ctx.shownStyle settings.styleId settings.style
      ⟨settings.padding, none, none, settings.spacing⟩)

/-- What an iteration shows. -/
def shownIteration (ctx : Context) (settings : ForEachSettings) : ViewKind :=
  .container settings.layout (settings.alignment.getD .center)
    (ctx.shownStyle none none ⟨settings.padding, none, none, settings.spacing⟩)

/-- What a leaf shows. One that is invalid is an unknown view. -/
def shownLeaf (ctx : Context) (leaves : LeafRules) (answers : Path → Option Value) (leaf : Leaf) :
    ViewKind :=
  match (leaves.kindOf ctx leaf).result answers with
  | .ok kind => kind
  | .error _ => .unknown leaf.type

/-- The context of the template for an item of an iteration and its position. -/
def atItem (ctx : Context) (settings : ForEachSettings) (source : Option Path)
    (item : Value × Nat) : Context :=
  { ctx with scope := ctx.scope.atItem settings source item }

/-- An iteration binds its variables to the element and its position. The position has the name if
both variables have the same one. -/
theorem get?_itemFrame (settings : ForEachSettings) (source : Option Path) (item : Value) (i : Nat)
    (name : String) :
    Fields.get? (itemFrame settings source item i) name =
      if settings.indexVariable = name then some ⟨Value.ofNat i, none⟩
      else if settings.itemVariable = name then
        some ⟨item, source.map fun array => array.index i⟩
      else none := by
  have hframe : itemFrame settings source item i =
      Fields.insert (Fields.insert [] settings.itemVariable
        ⟨item, source.map fun array => array.index i⟩) settings.indexVariable
        ⟨Value.ofNat i, none⟩ := rfl
  rw [hframe, Fields.get?_insert, Fields.get?_insert, Fields.get?_nil]

end Context

/-- In the template for an item, the position has no place in the state, and the item lies where the
array does. All other names stand for what they stand for around the iteration. -/
theorem Scope.innermost?_atItem (scope : Scope) (settings : ForEachSettings) (source : Option Path)
    (item : Value) (i : Nat) (name : String) :
    (scope.atItem settings source (item, i)).innermost? name =
      if settings.indexVariable = name then some ⟨Value.ofNat i, none⟩
      else if settings.itemVariable = name then
        some ⟨item, source.map fun array => array.index i⟩
      else scope.innermost? name := by
  rw [atItem, push, innermost?, List.findSome?_cons, Context.get?_itemFrame]
  by_cases hindex : settings.indexVariable = name
  · rw [if_pos hindex, if_pos hindex]
  · by_cases hitem : settings.itemVariable = name
    · rw [if_neg hindex, if_neg hindex, if_pos hitem, if_pos hitem]
    · rw [if_neg hindex, if_neg hindex, if_neg hitem, if_neg hitem]
      rfl

/-! ### Views -/

mutual

/-- The views of a node of the layout. Each node makes one view, with views below it. -/
def Node.outline (leaves : LeafRules) (answers : Path → Option Value) :
    Context → Slot → Node → Outline
  | ctx, slot, .container settings children =>
    .mk ⟨ctx.shownContainer settings, settings.id, slot⟩
      (Node.outlines leaves answers ctx .item children)
  | ctx, slot, .sectionLayout id spacing sections =>
    .mk ⟨.sectionLayout (spacing.getD 0.0), id, slot⟩
      (Section.outlines leaves answers ctx sections)
  | ctx, slot, .forEach settings template emptyView =>
    let (items, source) := ctx.scope.itemsAt answers settings.items
    match items, emptyView with
    | [], some view => Node.outline leaves answers ctx slot view
    | items, _ =>
      .mk ⟨ctx.shownIteration settings, settings.id, slot⟩
        (items.zipIdx.map fun item =>
          Node.outline leaves answers (ctx.atItem settings source item) .item template)
  | _, slot, .spacer space => .mk ⟨.spacer space, none, slot⟩ []
  | ctx, slot, .component leaf =>
    .mk ⟨ctx.shownLeaf leaves answers leaf, leaf.id, slot⟩ []

/-- The views of the nodes in one slot, in order. -/
def Node.outlines (leaves : LeafRules) (answers : Path → Option Value) :
    Context → Slot → List Node → List Outline
  | _, _, [] => []
  | ctx, slot, node :: rest =>
    Node.outline leaves answers ctx slot node :: Node.outlines leaves answers ctx slot rest

/-- The view of a node that may be missing. -/
def Node.outlineIfAny (leaves : LeafRules) (answers : Path → Option Value) :
    Context → Slot → Option Node → List Outline
  | _, _, none => []
  | ctx, slot, some node => [Node.outline leaves answers ctx slot node]

/-- The views of a section: the header, the items and the footer, each in its slot. -/
def Section.outline (leaves : LeafRules) (answers : Path → Option Value) :
    Context → Section → Outline
  | ctx, .mk id settings header footer stickyHeader children =>
    .mk ⟨settings.viewKind stickyHeader, id, .item⟩
      (Node.outlineIfAny leaves answers ctx .header header ++
        Node.outlines leaves answers ctx .item children ++
        Node.outlineIfAny leaves answers ctx .footer footer)

/-- The views of sections, in order. -/
def Section.outlines (leaves : LeafRules) (answers : Path → Option Value) :
    Context → List Section → List Outline
  | _, [] => []
  | ctx, first :: rest =>
    Section.outline leaves answers ctx first :: Section.outlines leaves answers ctx rest

end

/-- The views of a document over a state. -/
def Rulebook.outline (rulebook : Rulebook) (document : Document) (state : Store) (track : Bool) :
    Outline :=
  let root := document.root
  let ctx := Context.ofDocument document rulebook.limits track rulebook.actions
  .mk (.plainContainer (ctx.shownStyle root.styleId root.style ⟨root.edgeInsets, none, none, none⟩))
    (Node.outlines rulebook.leaves state.get? ctx .item root.children)

section Lists

variable (leaves : LeafRules) (answers : Path → Option Value) (ctx : Context)

theorem Node.outlines_eq_map (slot : Slot) (nodes : List Node) :
    Node.outlines leaves answers ctx slot nodes =
      nodes.map (Node.outline leaves answers ctx slot) := by
  induction nodes with
  | nil => rw [outlines, List.map_nil]
  | cons node rest ih => rw [outlines, ih, List.map_cons]

theorem Node.outlineIfAny_eq_map (slot : Slot) (node : Option Node) :
    Node.outlineIfAny leaves answers ctx slot node =
      node.toList.map (Node.outline leaves answers ctx slot) := by
  cases node with
  | none => rw [outlineIfAny, Option.toList_none, List.map_nil]
  | some node => rw [outlineIfAny, Option.toList_some, List.map_singleton]

theorem Section.outlines_eq_map (sections : List Section) :
    Section.outlines leaves answers ctx sections =
      sections.map (Section.outline leaves answers ctx) := by
  induction sections with
  | nil => rw [outlines, List.map_nil]
  | cons first rest ih => rw [outlines, ih, List.map_cons]

theorem Section.outline_mk (id : Option String) (settings : SectionSettings)
    (header footer : Option Node) (stickyHeader : Bool) (children : List Node) :
    Section.outline leaves answers ctx (.mk id settings header footer stickyHeader children) =
      .mk ⟨settings.viewKind stickyHeader, id, .item⟩
        (header.toList.map (Node.outline leaves answers ctx .header) ++
          children.map (Node.outline leaves answers ctx .item) ++
          footer.toList.map (Node.outline leaves answers ctx .footer)) := by
  rw [outline, Node.outlines_eq_map, Node.outlineIfAny_eq_map, Node.outlineIfAny_eq_map]

end Lists

/-! ### Nesting -/

/-- The largest of some numbers, 0 if there is none. -/
def largest (numbers : List Nat) : Nat :=
  numbers.foldr max 0

theorem largest_le {numbers : List Nat} {bound : Nat} :
    largest numbers ≤ bound ↔ ∀ n ∈ numbers, n ≤ bound := by
  induction numbers with
  | nil => simp [largest]
  | cons n rest ih =>
    rw [largest, List.foldr_cons, Nat.max_le, ← largest, ih, List.forall_mem_cons]

mutual

/-- How deep the views of a node are nested, the node itself included. The empty view in the place
of an iteration counts as one level below it. -/
def Node.nesting (answers : Path → Option Value) : Scope → Node → Nat
  | scope, .container _ children => 1 + Node.deepest answers scope children
  | scope, .sectionLayout _ _ sections => 1 + Section.deepest answers scope sections
  | scope, .forEach settings template emptyView =>
    let (items, source) := scope.itemsAt answers settings.items
    match items, emptyView with
    | [], some view => 1 + Node.nesting answers scope view
    | items, _ =>
      1 + largest (items.zipIdx.map fun item =>
        Node.nesting answers (scope.atItem settings source item) template)
  | _, .spacer _ => 1
  | _, .component _ => 1

/-- The largest nesting of nodes side by side, 0 if there is none. -/
def Node.deepest (answers : Path → Option Value) : Scope → List Node → Nat
  | _, [] => 0
  | scope, node :: rest => max (Node.nesting answers scope node) (Node.deepest answers scope rest)

/-- The nesting of a node that may be missing, 0 if it is. -/
def Node.nestingIfAny (answers : Path → Option Value) : Scope → Option Node → Nat
  | _, none => 0
  | scope, some node => Node.nesting answers scope node

/-- How deep the views of a section are nested, the section itself included. -/
def Section.nesting (answers : Path → Option Value) : Scope → Section → Nat
  | scope, .mk _ _ header footer _ children =>
    1 + max (Node.nestingIfAny answers scope header)
      (max (Node.deepest answers scope children) (Node.nestingIfAny answers scope footer))

/-- The largest nesting of sections, 0 if there is none. -/
def Section.deepest (answers : Path → Option Value) : Scope → List Section → Nat
  | _, [] => 0
  | scope, first :: rest =>
    max (Section.nesting answers scope first) (Section.deepest answers scope rest)

end

section Bounds

variable {answers : Path → Option Value} {scope : Scope} {bound : Nat}

theorem Node.deepest_le {nodes : List Node} :
    Node.deepest answers scope nodes ≤ bound ↔
      ∀ node ∈ nodes, node.nesting answers scope ≤ bound := by
  induction nodes with
  | nil => simp [deepest]
  | cons node rest ih => rw [deepest, Nat.max_le, ih, List.forall_mem_cons]

theorem Section.deepest_le {sections : List Section} :
    Section.deepest answers scope sections ≤ bound ↔
      ∀ s ∈ sections, s.nesting answers scope ≤ bound := by
  induction sections with
  | nil => simp [deepest]
  | cons first rest ih => rw [deepest, Nat.max_le, ih, List.forall_mem_cons]

theorem Node.nestingIfAny_le {node : Option Node} :
    Node.nestingIfAny answers scope node ≤ bound ↔
      ∀ n ∈ node.toList, n.nesting answers scope ≤ bound := by
  cases node with
  | none => simp [nestingIfAny]
  | some node => simp [nestingIfAny]

/-- Each node takes a level of its own. -/
theorem Node.nesting_pos (answers : Path → Option Value) (scope : Scope) (node : Node) :
    0 < node.nesting answers scope := by
  cases node with
  | forEach settings template emptyView =>
    rw [nesting]
    simp only
    split <;> exact Nat.add_pos_left Nat.one_pos _
  | spacer space => exact Nat.one_pos
  | component leaf => exact Nat.one_pos
  | _ =>
    rw [nesting]
    exact Nat.add_pos_left Nat.one_pos _

theorem Section.nesting_pos (answers : Path → Option Value) (scope : Scope) (s : Section) :
    0 < s.nesting answers scope := by
  obtain ⟨id, settings, header, footer, stickyHeader, children⟩ := s
  rw [nesting]
  exact Nat.add_pos_left Nat.one_pos _

theorem Section.nesting_mk_le (id : Option String) (settings : SectionSettings)
    (header footer : Option Node) (stickyHeader : Bool) (children : List Node) :
    (Section.mk id settings header footer stickyHeader children).nesting answers scope ≤
        bound + 1 ↔
      (∀ node ∈ header.toList, node.nesting answers scope ≤ bound) ∧
        (∀ node ∈ children, node.nesting answers scope ≤ bound) ∧
        ∀ node ∈ footer.toList, node.nesting answers scope ≤ bound := by
  rw [nesting, Nat.add_comm 1, Nat.succ_le_succ_iff, Nat.max_le, Nat.max_le,
    Node.nestingIfAny_le, Node.deepest_le, Node.nestingIfAny_le]

end Bounds

end ScreenDoc
