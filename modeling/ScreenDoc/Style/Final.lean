import ScreenDoc.Style.Layer

/-!
# Final styles

The style of a view as a renderer uses it, without layers and with all defaults.

## Main definitions

- `Insets`, `FinalShadow` — padding and shadow with all parts
- `OwnProperties` — the properties that a view sets on its own
- `FinalStyle` — a final style
- `FinalStyle.ofLayer` — the final style of merged properties under the properties of the view
-/

namespace ScreenDoc

/-- Padding on all four edges. -/
structure Insets where
  top : Float
  bottom : Float
  leading : Float
  trailing : Float

/-- A shadow with all parts. -/
structure FinalShadow where
  color : String
  radius : Float
  x : Float
  y : Float

/-- The properties that a view sets on its own. -/
structure OwnProperties where
  padding : Option Padding
  width : Option Float
  height : Option Float
  spacing : Option Float

/-- A final style. What is still unset has no neutral value and is left to the renderer. -/
structure FinalStyle where
  fontFamily : Option String
  fontSize : Option Float
  fontWeight : Option FontWeight
  textColor : Option String
  backgroundColor : Option String
  tintColor : Option String
  opacity : Float
  textAlignment : Option TextAlignment
  cornerRadius : Float
  borderWidth : Float
  borderColor : Option String
  spacing : Option Float
  padding : Insets
  width : Option Float
  height : Option Float
  minWidth : Option Float
  minHeight : Option Float
  maxWidth : Option Float
  maxHeight : Option Float
  shadow : Option FinalShadow

namespace Insets

/-- No padding. -/
def zero : Insets := ⟨0.0, 0.0, 0.0, 0.0⟩

/-- An edge: of the view if it sets it, else of the style, else zero. -/
def edge (view style : Option Padding) (pick : Padding → Option Float) : Float :=
  ((view.bind pick).or (style.bind pick)).getD 0.0

/-- The padding of a view over that of its style. -/
def ofPadding (view style : Option Padding) : Insets where
  top := edge view style Padding.topEdge
  bottom := edge view style Padding.bottomEdge
  leading := edge view style Padding.leadingEdge
  trailing := edge view style Padding.trailingEdge

end Insets

/-- A shadow with its unset parts filled in: black, and zero for every number. -/
def FinalShadow.ofShadow (shadow : Shadow) : FinalShadow where
  color := shadow.color.getD "#000000"
  radius := shadow.radius.getD 0.0
  x := shadow.x.getD 0.0
  y := shadow.y.getD 0.0

/-- A view that sets nothing on its own. -/
def OwnProperties.none : OwnProperties := ⟨.none, .none, .none, .none⟩

namespace FinalStyle

/-- The final style of merged properties under the properties of the view. -/
def ofLayer (style : StyleLayer) (view : OwnProperties) : FinalStyle where
  fontFamily := style.fontFamily
  fontSize := style.fontSize
  fontWeight := style.fontWeight
  textColor := style.textColor
  backgroundColor := style.backgroundColor
  tintColor := style.tintColor
  opacity := style.opacity.getD 1.0
  textAlignment := style.textAlignment
  cornerRadius := style.cornerRadius.getD 0.0
  borderWidth := style.borderWidth.getD 0.0
  borderColor := style.borderColor
  spacing := view.spacing.or style.spacing
  padding := Insets.ofPadding view.padding style.padding
  width := view.width.or style.width
  height := view.height.or style.height
  minWidth := style.minWidth
  minHeight := style.minHeight
  maxWidth := style.maxWidth
  maxHeight := style.maxHeight
  shadow := style.shadow.map FinalShadow.ofShadow

/-- The style of a view without any properties. -/
def plain : FinalStyle :=
  ofLayer .unset .none

instance : Inhabited FinalStyle := ⟨plain⟩

end FinalStyle

end ScreenDoc
