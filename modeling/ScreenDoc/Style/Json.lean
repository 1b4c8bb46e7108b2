import ScreenDoc.Json.Record
import ScreenDoc.Style.Chain
import ScreenDoc.Style.Final

/-!
# Styles in JSON

## Main definitions

- `Padding.ofJson?`, `Shadow.ofJson?`, `StyleLayer.ofJson?`, `Style.ofJson?` — reading
- `Padding.toValue`, `Shadow.toValue`, `StyleLayer.toValue`, `Style.toValue`,
  `FinalStyle.toValue` — writing; what is unset is left out
-/

namespace ScreenDoc

/-- An object of the fields that are set. -/
def Value.ofSet (fields : List (String × Option Value)) : Value :=
  .object (Fields.ofList (fields.filterMap fun (name, value) => value.map fun v => (name, v)))

namespace Shadow

/-- The names of the parts. -/
def names : List String := ["color", "radius", "x", "y"]

/-- Reads a shadow. -/
def ofJson? (json : Json) : Option Shadow := do
  let record ← json.record? names 4
  some ⟨← record.string? "color", ← record.float? "radius", ← record.float? "x",
    ← record.float? "y"⟩

/-- Writes a shadow. -/
def toValue (shadow : Shadow) : Value :=
  .ofSet [("color", shadow.color.map .string), ("radius", shadow.radius.map .double),
    ("x", shadow.x.map .double), ("y", shadow.y.map .double)]

end Shadow

namespace Padding

/-- The names of the parts. -/
def names : List String := ["top", "bottom", "leading", "trailing", "horizontal", "vertical"]

/-- Reads padding. -/
def ofJson? (json : Json) : Option Padding := do
  let record ← json.record? names 6
  some ⟨← record.float? "top", ← record.float? "bottom", ← record.float? "leading",
    ← record.float? "trailing", ← record.float? "horizontal", ← record.float? "vertical"⟩

/-- Writes padding. -/
def toValue (padding : Padding) : Value :=
  .ofSet [("top", padding.top.map .double), ("bottom", padding.bottom.map .double),
    ("leading", padding.leading.map .double), ("trailing", padding.trailing.map .double),
    ("horizontal", padding.horizontal.map .double), ("vertical", padding.vertical.map .double)]

end Padding

namespace StyleLayer

/-- The names of the properties. -/
def names : List String :=
  ["fontFamily", "fontSize", "fontWeight", "textColor", "backgroundColor", "tintColor", "opacity",
    "textAlignment", "cornerRadius", "borderWidth", "borderColor", "spacing", "padding", "width",
    "height", "minWidth", "minHeight", "maxWidth", "maxHeight", "shadow"]

/-- Reads the properties from the members of a record, which may have been read ahead. -/
def ofRecord? {json : Json} (readAhead : Bool) (record : Json.Record json) :
    Option StyleLayer := do
  some {
    fontFamily := ← record.string? "fontFamily"
    fontSize := ← record.float? "fontSize"
    fontWeight := ← record.optional "fontWeight" fun part =>
      (part.1.word? readAhead).bind FontWeight.ofName?
    textColor := ← record.string? "textColor"
    backgroundColor := ← record.string? "backgroundColor"
    tintColor := ← record.string? "tintColor"
    opacity := ← record.float? "opacity"
    textAlignment := ← record.optional "textAlignment" fun part =>
      (part.1.word? readAhead).bind TextAlignment.ofName?
    cornerRadius := ← record.float? "cornerRadius"
    borderWidth := ← record.float? "borderWidth"
    borderColor := ← record.string? "borderColor"
    spacing := ← record.float? "spacing"
    padding := ← record.optional "padding" fun part => Padding.ofJson? part.1
    width := ← record.float? "width"
    height := ← record.float? "height"
    minWidth := ← record.float? "minWidth"
    minHeight := ← record.float? "minHeight"
    maxWidth := ← record.float? "maxWidth"
    maxHeight := ← record.float? "maxHeight"
    shadow := ← record.optional "shadow" fun part => Shadow.ofJson? part.1 }

/-- Reads properties on their own. -/
def ofJson? (json : Json) : Option StyleLayer := do
  ofRecord? false (← json.record? names names.length)

/-- The properties that are set, by name. -/
def fields (style : StyleLayer) : List (String × Option Value) :=
  [("fontFamily", style.fontFamily.map .string),
    ("fontSize", style.fontSize.map .double),
    ("fontWeight", style.fontWeight.map fun weight => .string weight.name),
    ("textColor", style.textColor.map .string),
    ("backgroundColor", style.backgroundColor.map .string),
    ("tintColor", style.tintColor.map .string),
    ("opacity", style.opacity.map .double),
    ("textAlignment", style.textAlignment.map fun alignment => .string alignment.name),
    ("cornerRadius", style.cornerRadius.map .double),
    ("borderWidth", style.borderWidth.map .double),
    ("borderColor", style.borderColor.map .string),
    ("spacing", style.spacing.map .double),
    ("padding", style.padding.map Padding.toValue),
    ("width", style.width.map .double),
    ("height", style.height.map .double),
    ("minWidth", style.minWidth.map .double),
    ("minHeight", style.minHeight.map .double),
    ("maxWidth", style.maxWidth.map .double),
    ("maxHeight", style.maxHeight.map .double),
    ("shadow", style.shadow.map Shadow.toValue)]

/-- Writes the properties that are set. -/
def toValue (style : StyleLayer) : Value :=
  .ofSet style.fields

end StyleLayer

namespace Style

/-- Reads a named style: an object of its properties and of the style that it inherits from. All of
it is read, and no known member is repeated. -/
def ofJson? (json : Json) : Option Style := do
  let members ← json.members?
  if !json.isReadable then none
  let known := members.filter fun member => ("inherits" :: StyleLayer.names).contains member.1
  if !Json.distinct known then none
  some ⟨← Json.Record.string? known "inherits", ← StyleLayer.ofRecord? true known⟩

/-- Writes a named style. -/
def toValue (style : Style) : Value :=
  .ofSet (("inherits", style.inherits.map .string) :: style.properties.fields)

end Style

/-- Reads the styles of a document. -/
def StyleTable.ofJson? (json : Json) : Option StyleTable :=
  json.map? Style.ofJson?

/-- Writes the styles of a document. -/
def StyleTable.toValue (table : StyleTable) : Value :=
  .object (table.map fun (name, style) => (name, style.toValue))

/-- Writes edge insets. -/
def Insets.toValue (insets : Insets) : Value :=
  .object [("bottom", .double insets.bottom), ("leading", .double insets.leading),
    ("top", .double insets.top), ("trailing", .double insets.trailing)]

/-- Writes a final shadow. -/
def FinalShadow.toValue (shadow : FinalShadow) : Value :=
  .object [("color", .string shadow.color), ("radius", .double shadow.radius),
    ("x", .double shadow.x), ("y", .double shadow.y)]

/-- Writes a final style. -/
def FinalStyle.toValue (style : FinalStyle) : Value :=
  .ofSet [("fontFamily", style.fontFamily.map .string),
    ("fontSize", style.fontSize.map .double),
    ("fontWeight", style.fontWeight.map fun weight => .string weight.name),
    ("textColor", style.textColor.map .string),
    ("backgroundColor", style.backgroundColor.map .string),
    ("tintColor", style.tintColor.map .string),
    ("opacity", some (.double style.opacity)),
    ("textAlignment", style.textAlignment.map fun alignment => .string alignment.name),
    ("cornerRadius", some (.double style.cornerRadius)),
    ("borderWidth", some (.double style.borderWidth)),
    ("borderColor", style.borderColor.map .string),
    ("spacing", style.spacing.map .double),
    ("padding", some style.padding.toValue),
    ("width", style.width.map .double),
    ("height", style.height.map .double),
    ("minWidth", style.minWidth.map .double),
    ("minHeight", style.minHeight.map .double),
    ("maxWidth", style.maxWidth.map .double),
    ("maxHeight", style.maxHeight.map .double),
    ("shadow", style.shadow.map FinalShadow.toValue)]

end ScreenDoc
