import ScreenDoc.Expansion.Context

/-!
# Rules for leaves

For each type of leaf a rule tells which view it becomes. A leaf of a type without a rule becomes an
unknown view.

## Main definitions

- `LeafRule` — a way to make views of leaves
- `LeafRules` — the rules by the name of the type
- `LeafRules.kindOf` — the kind of view that a leaf becomes
-/

namespace ScreenDoc

/-- A way to make views of leaves. -/
inductive LeafRule where
  | text
  | button
  | image
  | gradient
  | toggle
  | slider
  | textField
  | shape
  | divider
  /-- A type of the host: its properties are kept, with placeholders replaced. -/
  | custom
  /-- A type of the host that cannot become a view. -/
  | fatal (error : Problem)
deriving DecidableEq, Repr

/-- The rules by the name of the type, in ascending order. -/
structure LeafRules where
  byName : List (String × LeafRule)

namespace Leaf

/-- A property of a leaf, if it is there and has the form that is asked for. -/
def property? {α : Type} (leaf : Leaf) (name : String) (reader : Json → Option α) :
    Option α :=
  (Fields.get? leaf.properties name).bind fun value => reader (Json.ofValue value)

end Leaf

/-! ### Properties with parts -/

/-- The styles of a button in its states. -/
structure StateStyles where
  normal : Option String
  selected : Option String
  disabled : Option String

namespace StateStyles

/-- No styles. -/
def unset : StateStyles := ⟨none, none, none⟩

/-- Reads the styles of a button. -/
def ofJson? (json : Json) : Option StateStyles := do
  let record ← json.record? ["normal", "selected", "disabled"] 3
  some ⟨← record.string? "normal", ← record.string? "selected", ← record.string? "disabled"⟩

end StateStyles

/-- An image as written. -/
inductive WrittenImage where
  | asset (name : String)
  | system (name : String)
  | url (address : String)

/-- The only member of a record, a text. -/
def Json.onlyString? (json : Json) (name : String) : Option String := do
  let record ← json.record? [name] 1
  record.required name fun part => part.1.string?

/-- Reads an image. -/
def WrittenImage.ofJson? (json : Json) : Option WrittenImage :=
  match json.tagged? with
  | some ("asset", rest) => (rest.onlyString? "name").map .asset
  | some ("system", rest) => (rest.onlyString? "name").map .system
  | some ("url", rest) => (rest.onlyString? "url").map .url
  | _ => none

/-- A color of a gradient as written: its name, perhaps with a place. -/
structure WrittenStop where
  color : String
  location : Option Float
  /-- Whether the place has to be limited. -/
  isStop : Bool

/-- Reads a color of a gradient: a text, or an object. -/
def WrittenStop.ofJson? (json : Json) : Option WrittenStop :=
  match json.string? with
  | some color => some ⟨color, none, false⟩
  | none => do
    let _ ← json.members?
    let record ← json.record? ["color", "location"] 2
    some ⟨← record.required "color" fun part => part.1.string?, ← record.float? "location", true⟩

/-- Reads the colors of a gradient. -/
def WrittenStop.listOfJson? (json : Json) : Option (List WrittenStop) := do
  (← json.parts?).mapM fun part => WrittenStop.ofJson? part.1

/-- A number limited to the range from 0 to 1. -/
def clampUnit (x : Float) : Float :=
  if x < 0.0 then 0.0 else if x > 1.0 then 1.0 else x

/-- The stops of a gradient. Those without a place are spread evenly. -/
def GradientStop.ofWritten (stops : List WrittenStop) : List GradientStop :=
  let last := Float.ofNat (max (stops.length - 1) 1)
  stops.zipIdx.map fun (stop, i) =>
    let even := Float.ofNat i / last
    if stop.isStop then ⟨stop.color, clampUnit (stop.location.getD even)⟩ else ⟨stop.color, even⟩

namespace ShapeForm

/-- The shape of this name. -/
def ofName? : String → Option ShapeForm
  | "rectangle" => some .rectangle
  | "roundedRectangle" => some .roundedRectangle
  | "circle" => some .circle
  | "capsule" => some .capsule
  | "ellipse" => some .ellipse
  | _ => none

end ShapeForm

/-! ### The built-in types -/

namespace Context

/-- A value that may be missing, followed from now on. -/
def optionalText (ctx : Context) : Option String → Noting (Option Bound)
  | some text => do return some (← ctx.boundTemplate text)
  | none => return none

/-- A final style that may be missing. -/
def optionalStyle (ctx : Context) (inline : Option StyleLayer) (own : OwnProperties) :
    Option String → Noting (Option FinalStyle)
  | some id => do return some (← ctx.finalStyle (some id) inline own)
  | none => return none

/-- A text shows the content of the leaf. -/
def textView (ctx : Context) (leaf : Leaf) : Noting TextView := do
  let content ← ctx.content leaf
  let style ← ctx.leafStyle leaf
  return ⟨content, style⟩

/-- The image of a leaf, if it has one in its properties. -/
def imageOrigin? (ctx : Context) (leaf : Leaf) : Noting (Option ImageOrigin) :=
  match leaf.property? "image" WrittenImage.ofJson? with
  | none => return none
  | some (.asset name) => return some (.asset name)
  | some (.system name) => return some (.system name)
  | some (.url address) => do return some (.url (← ctx.boundTemplate address))

/-- Whether a button is selected, if its leaf says where in the state that stands. -/
def selection? (ctx : Context) (leaf : Leaf) : Noting (Option Bound) :=
  match leaf.property? "isSelected" Json.string? with
  | some path => do return some (← ctx.boundPath path)
  | none => return none

/-- A button. The style for the normal state comes before the style of the leaf, and the inline
properties lie over the styles of all states. -/
def buttonView (ctx : Context) (leaf : Leaf) : Noting ButtonView := do
  let styles := (leaf.property? "styles" StateStyles.ofJson?).getD .unset
  let own := ownProperties leaf
  let style ←
    ctx.finalStyle (styles.normal.or leaf.styleId) leaf.style own
  let selectedStyle ← ctx.optionalStyle leaf.style own styles.selected
  let disabledStyle ← ctx.optionalStyle leaf.style own styles.disabled
  let isSelected ← ctx.selection? leaf
  let label ← ctx.content leaf
  let image ← ctx.imageOrigin? leaf
  let onTap ← ctx.boundAction? leaf.actions.onTap
  return ⟨label, style, selectedStyle, disabledStyle, isSelected, image, onTap⟩

/-- An image from the properties of the leaf, or else from its data. -/
def imageView (ctx : Context) (leaf : Leaf) :
    Noting (Except Problem ImageView) := do
  match ← ctx.imageOrigin? leaf with
  | some source => return .ok ⟨source, ← ctx.leafStyle leaf⟩
  | none =>
    match leaf.data with
    | some origin =>
      let address ← ctx.data origin
      return .ok ⟨.url address, ← ctx.leafStyle leaf⟩
    | none => return .error (.invalidLeaf "image" "no image source")

/-- A gradient of at least one color. -/
def gradientView (ctx : Context) (leaf : Leaf) :
    Noting (Except Problem GradientView) := do
  let stops := (leaf.property? "colors" WrittenStop.listOfJson?).getD []
  if stops.isEmpty then return .error (.invalidLeaf "gradient" "no colors")
  else
    let gradient := match leaf.property? "gradientType" Json.string? with
      | some "radial" => GradientForm.radial
      | _ => .linear
    let startPoint := (leaf.property? "startPoint" Json.string?).getD "top"
    let endPoint := (leaf.property? "endPoint" Json.string?).getD "bottom"
    let style ← ctx.leafStyle leaf
    return .ok ⟨gradient, GradientStop.ofWritten stops, startPoint, endPoint, style⟩

/-- The value of a control: the place that it is bound to, else its data, else a fixed value. For a
control that is bound, also the place that it sets. -/
def controlValue (ctx : Context) (leaf : Leaf) (fallback : Value) :
    Noting (Bound × Option String) := do
  match leaf.bind with
  | some path =>
    let value ← ctx.boundPath path
    return (value, value.path?)
  | none =>
    match leaf.data with
    | some origin => return (← ctx.data origin, none)
    | none => return (.literal fallback, none)

/-- A toggle, labelled by its label or else its text. -/
def toggleView (ctx : Context) (leaf : Leaf) : Noting ToggleView := do
  let initial := (leaf.property? "isOn" Json.bool?).getD false
  let (isOn, bind) ← ctx.controlValue leaf (.bool initial)
  let label ← ctx.optionalText (leaf.label.or leaf.text)
  let style ← ctx.leafStyle leaf
  let onValueChanged ← ctx.boundAction? leaf.actions.onValueChanged
  return ⟨label, isOn, bind, style, onValueChanged⟩

/-- A slider between 0 and 1, unless told otherwise. -/
def sliderView (ctx : Context) (leaf : Leaf) :
    Noting (Except Problem SliderView) := do
  let min := (leaf.property? "minValue" Json.float?).getD 0.0
  let max := (leaf.property? "maxValue" Json.float?).getD 1.0
  if min > max then
    return .error (.invalidLeaf "slider"
      ("minValue " ++ Decimal.plain.text min ++ " is above maxValue " ++ Decimal.plain.text max))
  else
    let step := (leaf.property? "step" Json.float?).filter fun step => step > 0.0
    let (value, bind) ← ctx.controlValue leaf (.double min)
    let style ← ctx.leafStyle leaf
    let onValueChanged ← ctx.boundAction? leaf.actions.onValueChanged
    return .ok ⟨value, min, max, step, bind, style, onValueChanged⟩

/-- A text field, with its text as the fixed value. -/
def textFieldView (ctx : Context) (leaf : Leaf) : Noting TextFieldView := do
  let (value, bind) ← ctx.controlValue leaf (.string (leaf.text.getD ""))
  let isSecure := (leaf.property? "isSecure" Json.bool?).getD false
  let style ← ctx.leafStyle leaf
  let onValueChanged ← ctx.boundAction? leaf.actions.onValueChanged
  return ⟨value, leaf.placeholder, isSecure, bind, style, onValueChanged⟩

/-- The shape of a leaf: a rectangle, unless it names another one. -/
def shapeForm (leaf : Leaf) : Except Problem ShapeForm :=
  match leaf.property? "shapeType" Json.string? with
  | none => .ok .rectangle
  | some name =>
    match ShapeForm.ofName? name with
    | some kind => .ok kind
    | none => .error (.invalidLeaf "shape" ("unknown shape " ++ Text.quote name))

/-- A shape. Its style has the colors and the width that the leaf does not set. -/
def shapeView (ctx : Context) (leaf : Leaf) :
    Noting (Except Problem ShapeView) := do
  match shapeForm leaf with
  | .error error => return .error error
  | .ok shape =>
    let style ← ctx.leafStyle leaf
    return .ok ⟨shape, (leaf.property? "fillColor" Json.string?).or style.backgroundColor,
      (leaf.property? "strokeColor" Json.string?).or style.borderColor,
      (leaf.property? "strokeWidth" Json.float?).getD style.borderWidth, style⟩

/-- A line between other views. -/
def dividerView (ctx : Context) (leaf : Leaf) : Noting DividerView := do
  let style ← ctx.leafStyle leaf
  return ⟨(leaf.property? "thickness" Json.float?).getD 1.0,
    (leaf.property? "color" Json.string?).or style.borderColor, style⟩

/-- A property of a leaf; the placeholders of a text are replaced. -/
def customProperty (ctx : Context) : Value → Noting Value
  | .string s =>
    if Text.includes Expr.opener s.toList then do return .string (← ctx.fill s)
    else return .string s
  | value => return value

/-- The properties of a leaf with the placeholders of its texts replaced. -/
def customProperties (ctx : Context) :
    List (String × Value) → Noting (List (String × Value))
  | [] => return []
  | (name, value) :: rest => do
    let value ← ctx.customProperty value
    return (name, value) :: (← customProperties ctx rest)

/-- A leaf of the host. -/
def customView (ctx : Context) (leaf : Leaf) : Noting CustomView := do
  let properties ← ctx.customProperties leaf.properties
  let style ← ctx.leafStyle leaf
  return ⟨leaf.type, properties, style⟩

end Context

namespace LeafRule

/-- The kind of view that a leaf becomes by a rule. -/
def kindOf (rule : LeafRule) (ctx : Context) (leaf : Leaf) :
    Noting (Except Problem ViewKind) :=
  match rule with
  | .text => do return .ok (.text (← ctx.textView leaf))
  | .button => do return .ok (.button (← ctx.buttonView leaf))
  | .image => do return (← ctx.imageView leaf).map .image
  | .gradient => do return (← ctx.gradientView leaf).map .gradient
  | .toggle => do return .ok (.toggle (← ctx.toggleView leaf))
  | .slider => do return (← ctx.sliderView leaf).map .slider
  | .textField => do return .ok (.textField (← ctx.textFieldView leaf))
  | .shape => do return (← ctx.shapeView leaf).map .shape
  | .divider => do return .ok (.divider (← ctx.dividerView leaf))
  | .custom => do return .ok (.custom (← ctx.customView leaf))
  | .fatal error => return .error error

end LeafRule

namespace LeafRules

/-- No rules. -/
def empty : LeafRules := ⟨[]⟩

/-- One more rule, which replaces another one for the same type. -/
def insert (rules : LeafRules) (type : String) (rule : LeafRule) :
    LeafRules :=
  ⟨Fields.insert rules.byName type rule⟩

/-- All rules but the one for a type. -/
def erase (rules : LeafRules) (type : String) : LeafRules :=
  ⟨Fields.erase rules.byName type⟩

/-- Whether there is a rule for a type. -/
def contains (rules : LeafRules) (type : String) : Bool :=
  Fields.contains rules.byName type

/-- The number of rules. -/
def length (rules : LeafRules) : Nat :=
  rules.byName.length

/-- The rules of the built-in types. -/
def builtin : LeafRules :=
  ⟨Fields.ofList [("text", .text), ("button", .button), ("image", .image),
    ("gradient", .gradient), ("toggle", .toggle), ("slider", .slider), ("textfield", .textField),
    ("shape", .shape), ("divider", .divider)]⟩

instance : Inhabited LeafRules := ⟨builtin⟩

/-- The kind of view that a leaf becomes. -/
def kindOf (rules : LeafRules) (ctx : Context) (leaf : Leaf) :
    Noting (Except Problem ViewKind) :=
  match Fields.get? rules.byName leaf.type with
  | some rule => rule.kindOf ctx leaf
  | none => return .ok (.unknown leaf.type)

/-- A description of the rules by the names of their types. -/
def describe (rules : LeafRules) : String :=
  "ComponentResolverRegistry \x7b types: " ++
    ActionRules.nameList (rules.byName.map Prod.fst) ++ " \x7d"

end LeafRules

end ScreenDoc
