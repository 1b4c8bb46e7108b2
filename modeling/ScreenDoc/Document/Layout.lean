import ScreenDoc.Action.Basic
import ScreenDoc.Document.Origin
import ScreenDoc.Style.Json

/-!
# The layout of a document

The nodes that a screen is made of, as they are written.

## Main definitions

- `Node` — containers, section layouts, iterations, spacers and leaves
- `Leaf` — a leaf: the fields that all types share, and its own properties
- `Document` — a whole document
-/

namespace ScreenDoc

/-- The axis of a stack. -/
inductive StackAxis where
  | vertical
  | horizontal
  /-- One above the other. -/
  | overlay
deriving DecidableEq, Repr

/-- How the children of a container are aligned. -/
inductive Alignment where
  | leading
  | center
  | trailing
  | top
  | bottom
  | topLeading
  | topTrailing
  | bottomLeading
  | bottomTrailing
deriving DecidableEq, Repr

/-- How a section arranges its items. -/
inductive Arrangement where
  /-- A rail that scrolls to the side. -/
  | horizontal
  | list
  | grid
  /-- Lines that wrap. -/
  | flow
deriving DecidableEq, Repr

/-- Where a rail comes to rest. -/
inductive Snapping where
  | none
  | viewAligned
  | paging
deriving DecidableEq, Repr

/-- The columns of a grid: a number of them, or as many as fit at a least width. -/
inductive Columns where
  | fixed (count : Nat)
  | adaptive (minWidth : Float)

/-- The color scheme of a screen. -/
inductive ColorScheme where
  | light
  | dark
  | system
deriving DecidableEq, Repr

namespace StackAxis

/-- The name of a stack. -/
def name : StackAxis → String
  | .vertical => "vstack"
  | .horizontal => "hstack"
  | .overlay => "zstack"

/-- The stack of this name. -/
def ofName? (name : String) : Option StackAxis :=
  [vertical, horizontal, overlay].find? fun kind => kind.name = name

end StackAxis

namespace Alignment

/-- The name of an alignment. -/
def name : Alignment → String
  | .leading => "leading"
  | .center => "center"
  | .trailing => "trailing"
  | .top => "top"
  | .bottom => "bottom"
  | .topLeading => "topLeading"
  | .topTrailing => "topTrailing"
  | .bottomLeading => "bottomLeading"
  | .bottomTrailing => "bottomTrailing"

/-- The alignment of this name. -/
def ofName? (name : String) : Option Alignment :=
  [leading, center, trailing, top, bottom, topLeading, topTrailing, bottomLeading,
    bottomTrailing].find? fun alignment => alignment.name = name

end Alignment

namespace Arrangement

/-- The name of an arrangement. -/
def name : Arrangement → String
  | .horizontal => "horizontal"
  | .list => "list"
  | .grid => "grid"
  | .flow => "flow"

/-- The arrangement of this name. -/
def ofName? (name : String) : Option Arrangement :=
  [horizontal, list, grid, flow].find? fun kind => kind.name = name

end Arrangement

namespace Snapping

/-- The name of a behaviour. -/
def name : Snapping → String
  | .none => "none"
  | .viewAligned => "viewAligned"
  | .paging => "paging"

/-- The behaviour of this name. -/
def ofName? (name : String) : Option Snapping :=
  [Snapping.none, viewAligned, paging].find? fun behavior => behavior.name = name

end Snapping

namespace ColorScheme

/-- The name of a scheme. -/
def name : ColorScheme → String
  | .light => "light"
  | .dark => "dark"
  | .system => "system"

/-- The scheme of this name. -/
def ofName? (name : String) : Option ColorScheme :=
  [light, dark, system].find? fun scheme => scheme.name = name

end ColorScheme

/-- The layout settings of a section. -/
structure SectionSettings where
  kind : Arrangement
  columns : Option Columns
  itemSpacing : Option Float
  lineSpacing : Option Float
  contentInsets : Option Padding
  alignment : Option Alignment
  showIndicators : Bool
  isPagingEnabled : Bool
  snapBehavior : Snapping
  showDividers : Bool

/-- The settings of a section that sets none. -/
def SectionSettings.unset : SectionSettings :=
  ⟨.list, none, none, none, none, none, false, false, .none, false⟩

/-- What answers the events of a leaf. -/
structure LeafHandlers where
  onTap : Option Handler
  onValueChanged : Option Handler

/-- Nothing answers. -/
def LeafHandlers.none : LeafHandlers := ⟨.none, .none⟩

/-- A leaf of the layout. -/
structure Leaf where
  /-- The name of the type. -/
  type : String
  id : Option String
  styleId : Option String
  style : Option StyleLayer
  padding : Option Padding
  width : Option Float
  height : Option Float
  text : Option String
  label : Option String
  data : Option DataOrigin
  /-- The place in the state that a control shows and sets. -/
  bind : Option String
  placeholder : Option String
  actions : LeafHandlers
  /-- The members that not all types share, in ascending order of their names. -/
  properties : List (String × Value)

/-- A leaf of which only the kind is known. -/
def Leaf.ofType (type : String) : Leaf :=
  ⟨type, none, none, none, none, none, none, none, none, none, none, none, .none, []⟩

/-- The fields of a container apart from its children. -/
structure ContainerSettings where
  kind : StackAxis
  id : Option String
  styleId : Option String
  style : Option StyleLayer
  padding : Option Padding
  alignment : Option Alignment
  spacing : Option Float

/-- Flexible space. -/
structure Spacer where
  minLength : Option Float
  width : Option Float
  height : Option Float

/-- The fields of an iteration apart from its template and empty view. -/
structure ForEachSettings where
  id : Option String
  /-- The expression for the array. -/
  items : String
  /-- The name of the element in the template. -/
  itemVariable : String
  /-- The name of the position in the template. -/
  indexVariable : String
  layout : StackAxis
  spacing : Option Float
  alignment : Option Alignment
  padding : Option Padding

mutual

/-- A node of the layout. -/
inductive Node where
  | container (settings : ContainerSettings) (children : List Node)
  | sectionLayout (id : Option String) (sectionSpacing : Option Float) (sections : List Section)
  /-- One copy of the template for each element of an array, or else the empty view. -/
  | forEach (settings : ForEachSettings) (template : Node) (emptyView : Option Node)
  | spacer (space : Spacer)
  | component (leaf : Leaf)

/-- A section of a section layout. -/
inductive Section where
  | mk (id : Option String) (settings : SectionSettings) (header footer : Option Node)
    (stickyHeader : Bool) (children : List Node)

end

instance : Inhabited Node := ⟨.spacer ⟨none, none, none⟩⟩

/-- The name of the kind of a node. -/
def Node.kindName : Node → String
  | .container settings _ => settings.kind.name
  | .sectionLayout .. => "sectionLayout"
  | .forEach .. => "forEach"
  | .spacer _ => "spacer"
  | .component leaf => leaf.type

/-- What answers the events of a screen. -/
structure ScreenHandlers where
  onAppear : Option Handler
  onDisappear : Option Handler

/-- The root of a document. -/
structure Root where
  backgroundColor : Option String
  edgeInsets : Option Padding
  styleId : Option String
  style : Option StyleLayer
  colorScheme : Option ColorScheme
  actions : ScreenHandlers
  children : List Node

/-- A document. -/
structure Document where
  id : String
  version : Option String
  /-- The values that the state starts with. -/
  state : List (String × Value)
  styles : StyleTable
  dataSources : List (String × DataSource)
  actions : ActionTable
  root : Root

end ScreenDoc
