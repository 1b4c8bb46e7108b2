/-!
# Style properties

The properties that a style can set, and how a more specific style is laid over a less specific one.

## Main definitions

- `Padding`, `Shadow` — properties with parts
- `StyleLayer` — all properties of a style, each of which may be unset
- `StyleLayer.merge` — one style over another

## Design notes

A property that the more specific style sets wins. Padding and shadow are merged part by part; one
that is set without any part clears what lies below it.
-/

namespace ScreenDoc

/-- The weight of a font. -/
inductive FontWeight where
  | ultraLight
  | thin
  | light
  | regular
  | medium
  | semibold
  | bold
  | heavy
  | black
deriving DecidableEq, Repr

/-- How lines of text are aligned. -/
inductive TextAlignment where
  | leading
  | center
  | trailing
deriving DecidableEq, Repr

/-- A shadow below a shape. -/
structure Shadow where
  color : Option String
  radius : Option Float
  x : Option Float
  y : Option Float

/-- Space around a shape: by edge, or for both edges of an axis. -/
structure Padding where
  top : Option Float
  bottom : Option Float
  leading : Option Float
  trailing : Option Float
  /-- Stands for `leading` and `trailing` where they are unset. -/
  horizontal : Option Float
  /-- Stands for `top` and `bottom` where they are unset. -/
  vertical : Option Float

/-- The properties of a style. -/
structure StyleLayer where
  fontFamily : Option String
  fontSize : Option Float
  fontWeight : Option FontWeight
  textColor : Option String
  backgroundColor : Option String
  tintColor : Option String
  opacity : Option Float
  textAlignment : Option TextAlignment
  cornerRadius : Option Float
  borderWidth : Option Float
  borderColor : Option String
  spacing : Option Float
  padding : Option Padding
  width : Option Float
  height : Option Float
  minWidth : Option Float
  minHeight : Option Float
  maxWidth : Option Float
  maxHeight : Option Float
  shadow : Option Shadow

namespace FontWeight

/-- The name of a weight. -/
def name : FontWeight → String
  | .ultraLight => "ultraLight"
  | .thin => "thin"
  | .light => "light"
  | .regular => "regular"
  | .medium => "medium"
  | .semibold => "semibold"
  | .bold => "bold"
  | .heavy => "heavy"
  | .black => "black"

/-- The weight of this name. -/
def ofName? (name : String) : Option FontWeight :=
  [ultraLight, thin, light, regular, medium, semibold, bold, heavy, black].find?
    fun weight => weight.name = name

end FontWeight

namespace TextAlignment

/-- The name of an alignment. -/
def name : TextAlignment → String
  | .leading => "leading"
  | .center => "center"
  | .trailing => "trailing"

/-- The alignment of this name. -/
def ofName? (name : String) : Option TextAlignment :=
  [leading, center, trailing].find? fun alignment => alignment.name = name

end TextAlignment

/-- The upper of two layers where it is set, else the lower one. -/
def layer {α : Type} (lower upper : Option α) : Option α :=
  upper.or lower

/-- A layer with parts over another one. An upper layer that is unset leaves the lower one, and one
without any part clears it. -/
def layerParts {α : Type} (clears : α → Bool) (merge : α → α → α) :
    Option α → Option α → Option α
  | lower, none => lower
  | lower, some upper =>
    if clears upper then none
    else
      match lower with
      | none => some upper
      | some lower => some (merge lower upper)

namespace Shadow

/-- A shadow without any part. -/
def unset : Shadow := ⟨none, none, none, none⟩

/-- Whether a shadow has no part. -/
def clears (shadow : Shadow) : Bool :=
  shadow.color.isNone && shadow.radius.isNone && shadow.x.isNone && shadow.y.isNone

/-- A shadow over another one, part by part. -/
def merge (lower upper : Shadow) : Shadow where
  color := layer lower.color upper.color
  radius := layer lower.radius upper.radius
  x := layer lower.x upper.x
  y := layer lower.y upper.y

end Shadow

namespace Padding

/-- Padding without any part. -/
def unset : Padding := ⟨none, none, none, none, none, none⟩

/-- Whether padding has no part. -/
def clears (padding : Padding) : Bool :=
  padding.top.isNone && padding.bottom.isNone && padding.leading.isNone &&
    padding.trailing.isNone && padding.horizontal.isNone && padding.vertical.isNone

/-- The padding above. -/
def topEdge (padding : Padding) : Option Float :=
  padding.top.or padding.vertical

/-- The padding below. -/
def bottomEdge (padding : Padding) : Option Float :=
  padding.bottom.or padding.vertical

/-- The padding before. -/
def leadingEdge (padding : Padding) : Option Float :=
  padding.leading.or padding.horizontal

/-- The padding after. -/
def trailingEdge (padding : Padding) : Option Float :=
  padding.trailing.or padding.horizontal

/-- An edge of a lower layer, unless an upper layer sets the whole axis. -/
def unlessAxis (edge axis : Option Float) : Option Float :=
  if axis.isNone then edge else none

/-- Padding over other padding, part by part. An axis of the upper layer also replaces the edges of
the lower layer on it. -/
def merge (lower upper : Padding) : Padding where
  top := layer (unlessAxis lower.top upper.vertical) upper.top
  bottom := layer (unlessAxis lower.bottom upper.vertical) upper.bottom
  leading := layer (unlessAxis lower.leading upper.horizontal) upper.leading
  trailing := layer (unlessAxis lower.trailing upper.horizontal) upper.trailing
  horizontal := layer lower.horizontal upper.horizontal
  vertical := layer lower.vertical upper.vertical

end Padding

namespace StyleLayer

/-- A style that sets nothing. -/
def unset : StyleLayer :=
  ⟨none, none, none, none, none, none, none, none, none, none, none, none, none, none, none, none,
    none, none, none, none⟩

instance : Inhabited StyleLayer := ⟨unset⟩

/-- A more specific style over a less specific one. -/
def merge (lower upper : StyleLayer) : StyleLayer where
  fontFamily := layer lower.fontFamily upper.fontFamily
  fontSize := layer lower.fontSize upper.fontSize
  fontWeight := layer lower.fontWeight upper.fontWeight
  textColor := layer lower.textColor upper.textColor
  backgroundColor := layer lower.backgroundColor upper.backgroundColor
  tintColor := layer lower.tintColor upper.tintColor
  opacity := layer lower.opacity upper.opacity
  textAlignment := layer lower.textAlignment upper.textAlignment
  cornerRadius := layer lower.cornerRadius upper.cornerRadius
  borderWidth := layer lower.borderWidth upper.borderWidth
  borderColor := layer lower.borderColor upper.borderColor
  spacing := layer lower.spacing upper.spacing
  padding := layerParts Padding.clears Padding.merge lower.padding upper.padding
  width := layer lower.width upper.width
  height := layer lower.height upper.height
  minWidth := layer lower.minWidth upper.minWidth
  minHeight := layer lower.minHeight upper.minHeight
  maxWidth := layer lower.maxWidth upper.maxWidth
  maxHeight := layer lower.maxHeight upper.maxHeight
  shadow := layerParts Shadow.clears Shadow.merge lower.shadow upper.shadow

/-- Whether a style sets nothing. -/
def isUnset (style : StyleLayer) : Bool :=
  style.fontFamily.isNone && style.fontSize.isNone && style.fontWeight.isNone &&
    style.textColor.isNone && style.backgroundColor.isNone && style.tintColor.isNone &&
    style.opacity.isNone && style.textAlignment.isNone && style.cornerRadius.isNone &&
    style.borderWidth.isNone && style.borderColor.isNone && style.spacing.isNone &&
    style.padding.isNone && style.width.isNone && style.height.isNone && style.minWidth.isNone &&
    style.minHeight.isNone && style.maxWidth.isNone && style.maxHeight.isNone &&
    style.shadow.isNone

end StyleLayer

end ScreenDoc
