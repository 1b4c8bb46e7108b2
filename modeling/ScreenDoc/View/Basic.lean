import ScreenDoc.Action.Ready
import ScreenDoc.Document.Layout
import ScreenDoc.View.Bound

/-!
# Views

What a renderer draws: the parts of a screen with final styles and bound values. Nothing in them has
to be looked up in the document, save the actions that are known by name.

## Main definitions

- `ViewKind` — the kinds of views
- `View` — a view with its author identifier and its slot in the parent
- `ViewKind.bounds` — the values of a view that follow the state
- `ViewKind.refresh` — a view brought up to date with the state
- `Screen` — the properties of the whole screen
-/

namespace ScreenDoc

/-- Where a child sits in its parent. -/
inductive Slot where
  | item
  | header
  | footer
deriving DecidableEq, Repr

/-- An action of a view: by its name in the tree, or in place. -/
inductive BoundAction where
  | named (id : String)
  | inline (action : ReadyAction)

/-- Where an image comes from. -/
inductive ImageOrigin where
  | asset (name : String)
  /-- A symbol of the platform. -/
  | system (name : String)
  | url (address : Bound)

/-- The form of a shape. -/
inductive ShapeForm where
  | rectangle
  | roundedRectangle
  | circle
  | capsule
  | ellipse
deriving DecidableEq, Repr

/-- The form of a gradient. -/
inductive GradientForm where
  | linear
  | radial
deriving DecidableEq, Repr

/-- A color of a gradient and its place between 0 and 1. -/
structure GradientStop where
  color : String
  location : Float

/-- How a section arranges its items, with all defaults filled in. -/
structure SectionDesign where
  kind : Arrangement
  columns : Option Columns
  itemSpacing : Float
  lineSpacing : Float
  contentInsets : Insets
  alignment : Alignment
  showIndicators : Bool
  isPagingEnabled : Bool
  snapBehavior : Snapping
  showDividers : Bool

/-- A text. -/
structure TextView where
  content : Bound
  style : FinalStyle

/-- A button with the styles of its states. -/
structure ButtonView where
  label : Bound
  style : FinalStyle
  selectedStyle : Option FinalStyle
  disabledStyle : Option FinalStyle
  isSelected : Option Bound
  image : Option ImageOrigin
  onTap : Option BoundAction

/-- An image. -/
structure ImageView where
  source : ImageOrigin
  style : FinalStyle

/-- A switch. -/
structure ToggleView where
  label : Option Bound
  isOn : Bound
  /-- The place in the state that the control sets. -/
  bind : Option String
  style : FinalStyle
  onValueChanged : Option BoundAction

/-- A slider over a range of numbers. -/
structure SliderView where
  value : Bound
  min : Float
  max : Float
  step : Option Float
  /-- The place in the state that the control sets. -/
  bind : Option String
  style : FinalStyle
  onValueChanged : Option BoundAction

/-- A field that text is typed into. -/
structure TextFieldView where
  text : Bound
  placeholder : Option String
  isSecure : Bool
  /-- The place in the state that the control sets. -/
  bind : Option String
  style : FinalStyle
  onValueChanged : Option BoundAction

/-- A shape with its fill and outline. -/
structure ShapeView where
  shape : ShapeForm
  fill : Option String
  stroke : Option String
  strokeWidth : Float
  style : FinalStyle

/-- A gradient between colors. -/
structure GradientView where
  gradient : GradientForm
  stops : List GradientStop
  startPoint : String
  endPoint : String
  style : FinalStyle

/-- A line between other views. -/
structure DividerView where
  thickness : Float
  color : Option String
  style : FinalStyle

/-- A view that the host of the library draws, with its properties. -/
structure CustomView where
  type : String
  properties : List (String × Value)
  style : FinalStyle

/-- The kinds of views. -/
inductive ViewKind where
  | container (axis : StackAxis) (alignment : Alignment) (style : FinalStyle)
  | sectionLayout (sectionSpacing : Float)
  | section (layout : SectionDesign) (stickyHeader : Bool)
  | text (view : TextView)
  | button (view : ButtonView)
  | image (view : ImageView)
  | toggle (view : ToggleView)
  | slider (view : SliderView)
  | textField (view : TextFieldView)
  | shape (view : ShapeView)
  | gradient (view : GradientView)
  | divider (view : DividerView)
  | spacer (view : Spacer)
  /-- A type that the host of the library knows. -/
  | custom (view : CustomView)
  /-- A type that nobody knows. -/
  | unknown (type : String)

/-- A part of the screen. -/
structure View where
  kind : ViewKind
  /-- The identifier that the author gave it. -/
  id : Option String
  slot : Slot

/-- The properties of the whole screen. -/
structure Screen where
  backgroundColor : Option String
  edgeInsets : Insets
  colorScheme : ColorScheme
  style : FinalStyle
  onAppear : Option BoundAction
  onDisappear : Option BoundAction

/-- A screen without properties. -/
def Screen.plain : Screen :=
  ⟨none, .zero, .system, .plain, none, none⟩

namespace SectionDesign

/-- The design by the settings of a section. -/
def ofSettings (settings : SectionSettings) : SectionDesign where
  kind := settings.kind
  columns := settings.columns
  itemSpacing := settings.itemSpacing.getD 0.0
  lineSpacing := settings.lineSpacing.getD 0.0
  contentInsets := Insets.ofPadding settings.contentInsets none
  alignment := settings.alignment.getD .center
  showIndicators := settings.showIndicators
  isPagingEnabled := settings.isPagingEnabled
  snapBehavior := settings.snapBehavior
  showDividers := settings.showDividers

end SectionDesign

namespace ImageOrigin

/-- The bound values of an image source. -/
def bounds : ImageOrigin → List Bound
  | .url address => [address]
  | _ => []

/-- An image source for the present state, and whether it changed. -/
def refresh (store : Store) : ImageOrigin → ImageOrigin × Bool
  | .url address =>
    let (address, changed) := address.refresh store
    (.url address, changed)
  | source => (source, false)

end ImageOrigin

/-- A bound value that may be missing, for the present state, and whether it changed. -/
def Bound.refresh? (store : Store) : Option Bound → Option Bound × Bool
  | some bound =>
    let (bound, changed) := bound.refresh store
    (some bound, changed)
  | none => (none, false)

namespace ViewKind

/-- The name of a kind; for a type that is not built in, that type. -/
def name : ViewKind → String
  | .container .. => "container"
  | .sectionLayout _ => "sectionLayout"
  | .section .. => "section"
  | .text _ => "text"
  | .button _ => "button"
  | .image _ => "image"
  | .toggle _ => "toggle"
  | .slider _ => "slider"
  | .textField _ => "textfield"
  | .shape _ => "shape"
  | .gradient _ => "gradient"
  | .divider _ => "divider"
  | .spacer _ => "spacer"
  | .custom view => view.type
  | .unknown type => type

/-- The style of a view, if its kind has one. -/
def style? : ViewKind → Option FinalStyle
  | .container _ _ style => some style
  | .text view => some view.style
  | .button view => some view.style
  | .image view => some view.style
  | .toggle view => some view.style
  | .slider view => some view.style
  | .textField view => some view.style
  | .shape view => some view.style
  | .gradient view => some view.style
  | .divider view => some view.style
  | .custom view => some view.style
  | _ => none

/-- The values of a view that follow the state. Of a button these are the label and the
selection. -/
def bounds : ViewKind → List Bound
  | .text view => [view.content]
  | .button view => view.label :: view.isSelected.toList
  | .image view => view.source.bounds
  | .toggle view => view.isOn :: view.label.toList
  | .slider view => [view.value]
  | .textField view => [view.text]
  | _ => []

/-- A view brought up to date with the state, and whether any of its values changed. -/
def refresh (store : Store) : ViewKind → ViewKind × Bool
  | .text view =>
    let (content, changed) := view.content.refresh store
    (.text { view with content }, changed)
  | .button view =>
    let (label, labelChanged) := view.label.refresh store
    let (isSelected, selectionChanged) := Bound.refresh? store view.isSelected
    (.button { view with label, isSelected }, labelChanged || selectionChanged)
  | .image view =>
    let (source, changed) := view.source.refresh store
    (.image { view with source }, changed)
  | .toggle view =>
    let (isOn, valueChanged) := view.isOn.refresh store
    let (label, labelChanged) := Bound.refresh? store view.label
    (.toggle { view with isOn, label }, valueChanged || labelChanged)
  | .slider view =>
    let (value, changed) := view.value.refresh store
    (.slider { view with value }, changed)
  | .textField view =>
    let (shown, changed) := view.text.refresh store
    (.textField { view with text := shown }, changed)
  | kind => (kind, false)

end ViewKind

/-- A container whose children stand below each other, in the middle. -/
def View.plainContainer (style : FinalStyle) : View :=
  ⟨.container .vertical .center style, none, .item⟩

end ScreenDoc
