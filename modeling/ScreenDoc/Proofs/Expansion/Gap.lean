import ScreenDoc.Document.Layout

/-!
# Gaps in the layout

A document from which one leaf was cut out. Whatever leaf is put into the gap, all else of the
document stays as it is.

## Main definitions

- `Node.Gap`, `Section.Gap` — a part of the layout with a gap in the place of one leaf
- `Document.Gap` — a document with such a gap
- `Document.Gap.fill` — the document with a leaf in the gap
- `Document.leaves` — all leaves of a document

## Main results

- `Document.exists_fill` — each leaf of a document fills a gap in the rest of it
-/

namespace ScreenDoc

mutual

/-- A node with a gap in the place of one leaf. -/
inductive Node.Gap where
  /-- The node is the gap. -/
  | here
  | container (settings : ContainerSettings) (before : List Node) (gap : Node.Gap)
    (after : List Node)
  | sectionLayout (id : Option String) (sectionSpacing : Option Float) (before : List Section)
    (gap : Section.Gap) (after : List Section)
  | template (settings : ForEachSettings) (gap : Node.Gap) (emptyView : Option Node)
  | emptyView (settings : ForEachSettings) (template : Node) (gap : Node.Gap)

/-- A section with a gap in the place of one leaf. -/
inductive Section.Gap where
  | header (id : Option String) (settings : SectionSettings) (gap : Node.Gap)
    (footer : Option Node) (stickyHeader : Bool) (children : List Node)
  | item (id : Option String) (settings : SectionSettings) (header footer : Option Node)
    (stickyHeader : Bool) (before : List Node) (gap : Node.Gap) (after : List Node)
  | footer (id : Option String) (settings : SectionSettings) (header : Option Node)
    (gap : Node.Gap) (stickyHeader : Bool) (children : List Node)

end

mutual

/-- The node with a leaf in the gap. -/
def Node.Gap.fill (leaf : Leaf) : Node.Gap → Node
  | .here => .component leaf
  | .container settings before gap after =>
    .container settings (before ++ Node.Gap.fill leaf gap :: after)
  | .sectionLayout id spacing before gap after =>
    .sectionLayout id spacing (before ++ Section.Gap.fill leaf gap :: after)
  | .template settings gap emptyView => .forEach settings (Node.Gap.fill leaf gap) emptyView
  | .emptyView settings template gap => .forEach settings template (some (Node.Gap.fill leaf gap))

/-- The section with a leaf in the gap. -/
def Section.Gap.fill (leaf : Leaf) : Section.Gap → Section
  | .header id settings gap footer stickyHeader children =>
    .mk id settings (some (Node.Gap.fill leaf gap)) footer stickyHeader children
  | .item id settings header footer stickyHeader before gap after =>
    .mk id settings header footer stickyHeader (before ++ Node.Gap.fill leaf gap :: after)
  | .footer id settings header gap stickyHeader children =>
    .mk id settings header (some (Node.Gap.fill leaf gap)) stickyHeader children

end

/-- A document with a gap in the place of one leaf. -/
structure Document.Gap where
  /-- All of the document but its layout. -/
  document : Document
  before : List Node
  gap : Node.Gap
  after : List Node

/-- The document with a leaf in the gap. -/
def Document.Gap.fill (gap : Document.Gap) (leaf : Leaf) : Document :=
  let children := gap.before ++ gap.gap.fill leaf :: gap.after
  { gap.document with root := { gap.document.root with children } }

/-! ### The leaves of a document -/

mutual

/-- The leaves of a node, in order. -/
def Node.leaves : Node → List Leaf
  | .container _ children => Node.leavesOfAll children
  | .sectionLayout _ _ sections => Section.leavesOfAll sections
  | .forEach _ template emptyView => Node.leaves template ++ Node.leavesIfAny emptyView
  | .spacer _ => []
  | .component leaf => [leaf]

/-- The leaves of nodes side by side. -/
def Node.leavesOfAll : List Node → List Leaf
  | [] => []
  | node :: rest => Node.leaves node ++ Node.leavesOfAll rest

/-- The leaves of a node that may be missing. -/
def Node.leavesIfAny : Option Node → List Leaf
  | none => []
  | some node => Node.leaves node

/-- The leaves of a section: those of the header, of the items and of the footer. -/
def Section.leaves : Section → List Leaf
  | .mk _ _ header footer _ children =>
    Node.leavesIfAny header ++ Node.leavesOfAll children ++ Node.leavesIfAny footer

/-- The leaves of sections, in order. -/
def Section.leavesOfAll : List Section → List Leaf
  | [] => []
  | first :: rest => Section.leaves first ++ Section.leavesOfAll rest

end

/-- The leaves of a document, in order. -/
def Document.leaves (document : Document) : List Leaf :=
  Node.leavesOfAll document.root.children

variable {leaf : Leaf}

mutual

theorem Node.exists_fill : (node : Node) → leaf ∈ node.leaves →
    ∃ gap : Node.Gap, gap.fill leaf = node
  | .container settings children, h => by
    rw [Node.leaves] at h
    obtain ⟨before, gap, after, rfl⟩ := Node.exists_fill_of_all children h
    exact ⟨.container settings before gap after, by rw [Node.Gap.fill]⟩
  | .sectionLayout id spacing sections, h => by
    rw [Node.leaves] at h
    obtain ⟨before, gap, after, rfl⟩ := Section.exists_fill_of_all sections h
    exact ⟨.sectionLayout id spacing before gap after, by rw [Node.Gap.fill]⟩
  | .forEach settings template emptyView, h => by
    rw [Node.leaves] at h
    rcases List.mem_append.1 h with h | h
    · obtain ⟨gap, rfl⟩ := Node.exists_fill template h
      exact ⟨.template settings gap emptyView, by rw [Node.Gap.fill]⟩
    · obtain ⟨gap, rfl⟩ := Node.exists_fill_if_any emptyView h
      exact ⟨.emptyView settings template gap, by rw [Node.Gap.fill]⟩
  | .component other, h => by
    rw [Node.leaves] at h
    obtain rfl := List.mem_singleton.1 h
    exact ⟨.here, by rw [Node.Gap.fill]⟩

theorem Node.exists_fill_of_all : (nodes : List Node) → leaf ∈ Node.leavesOfAll nodes →
    ∃ (before : List Node) (gap : Node.Gap) (after : List Node),
      before ++ gap.fill leaf :: after = nodes
  | node :: rest, h => by
    rw [Node.leavesOfAll] at h
    rcases List.mem_append.1 h with h | h
    · obtain ⟨gap, rfl⟩ := Node.exists_fill node h
      exact ⟨[], gap, rest, rfl⟩
    · obtain ⟨before, gap, after, rfl⟩ := Node.exists_fill_of_all rest h
      exact ⟨node :: before, gap, after, rfl⟩

theorem Node.exists_fill_if_any : (node : Option Node) → leaf ∈ Node.leavesIfAny node →
    ∃ gap : Node.Gap, some (gap.fill leaf) = node
  | some node, h => by
    rw [Node.leavesIfAny] at h
    obtain ⟨gap, rfl⟩ := Node.exists_fill node h
    exact ⟨gap, rfl⟩

theorem Section.exists_fill : (s : Section) → leaf ∈ s.leaves →
    ∃ gap : Section.Gap, gap.fill leaf = s
  | .mk id settings header footer stickyHeader children, h => by
    rw [Section.leaves] at h
    rcases List.mem_append.1 h with h | h
    · rcases List.mem_append.1 h with h | h
      · obtain ⟨gap, rfl⟩ := Node.exists_fill_if_any header h
        exact ⟨.header id settings gap footer stickyHeader children, by rw [Section.Gap.fill]⟩
      · obtain ⟨before, gap, after, rfl⟩ := Node.exists_fill_of_all children h
        exact ⟨.item id settings header footer stickyHeader before gap after,
          by rw [Section.Gap.fill]⟩
    · obtain ⟨gap, rfl⟩ := Node.exists_fill_if_any footer h
      exact ⟨.footer id settings header gap stickyHeader children, by rw [Section.Gap.fill]⟩

theorem Section.exists_fill_of_all : (sections : List Section) →
    leaf ∈ Section.leavesOfAll sections →
      ∃ (before : List Section) (gap : Section.Gap) (after : List Section),
        before ++ gap.fill leaf :: after = sections
  | first :: rest, h => by
    rw [Section.leavesOfAll] at h
    rcases List.mem_append.1 h with h | h
    · obtain ⟨gap, rfl⟩ := Section.exists_fill first h
      exact ⟨[], gap, rest, rfl⟩
    · obtain ⟨before, gap, after, rfl⟩ := Section.exists_fill_of_all rest h
      exact ⟨first :: before, gap, after, rfl⟩

end

/-- Each leaf of a document fills a gap in the rest of it, wherever it is in the layout. -/
theorem Document.exists_fill {document : Document} (h : leaf ∈ document.leaves) :
    ∃ gap : Document.Gap, gap.fill leaf = document := by
  obtain ⟨before, gap, after, hchildren⟩ := Node.exists_fill_of_all _ h
  refine ⟨⟨document, before, gap, after⟩, ?_⟩
  rw [Gap.fill, hchildren]

end ScreenDoc
