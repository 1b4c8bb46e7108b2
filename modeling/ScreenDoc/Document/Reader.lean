import ScreenDoc.Document.Layout
import ScreenDoc.Json.Reader

/-!
# Reading documents

## Main definitions

- `Node.ofJson?`, `Leaf.ofJson?` — reading a part of the layout
- `Document.ofJson?` — reading a document
- `Document.ofText?`, `Document.ofValue?` — reading a document from a text or a value

## Design notes

A node is first read as a value, in which of repeated members the last counts, and then taken apart
by its type. All other records refuse repeated members.
-/

namespace ScreenDoc

/-- A number of columns, which is an unsigned integer of 32 bits. -/
def Json.columnCount? : Json → Option Nat
  | .scalar (.int n) =>
    if 0 ≤ n.toInt && n.toInt < 4294967296 then some n.toInt.toNat else none
  | _ => none

/-- Reads the columns of a grid: their number, or an object with their least width. -/
def Columns.ofJson? (json : Json) : Option Columns :=
  match json.columnCount? with
  | some count => some (.fixed count)
  | none => do
    let _ ← json.members?
    if !json.isReadable then none
    let record ← json.record? ["minWidth"] 1
    some (.adaptive (← record.required "minWidth" fun part => part.1.float?))

/-- The names of the settings of a section. -/
def SectionSettings.names : List String :=
  ["type", "columns", "itemSpacing", "lineSpacing", "contentInsets", "alignment",
    "showIndicators", "isPagingEnabled", "snapBehavior", "showDividers"]

/-- Reads the settings of a section. -/
def SectionSettings.ofJson? (json : Json) : Option SectionSettings := do
  let record ← json.record? SectionSettings.names 0
  some {
    kind := ← record.default "type" .list fun part => part.1.choice? Arrangement.ofName?
    columns := ← record.optional "columns" fun part => Columns.ofJson? part.1
    itemSpacing := ← record.float? "itemSpacing"
    lineSpacing := ← record.float? "lineSpacing"
    contentInsets := ← record.optional "contentInsets" fun part => Padding.ofJson? part.1
    alignment := ← record.optional "alignment" fun part => part.1.choice? Alignment.ofName?
    showIndicators := ← record.flag "showIndicators"
    isPagingEnabled := ← record.flag "isPagingEnabled"
    snapBehavior := ← record.default "snapBehavior" .none fun part =>
      part.1.choice? Snapping.ofName?
    showDividers := ← record.flag "showDividers" }

/-- Reads what answers the events of a leaf. -/
def LeafHandlers.ofJson? (json : Json) : Option LeafHandlers := do
  let record ← json.record? ["onTap", "onValueChanged"] 0
  some ⟨← record.optional "onTap" fun part => Handler.ofJson? part.1,
    ← record.optional "onValueChanged" fun part => Handler.ofJson? part.1⟩

namespace Leaf

/-- The names of the members that all types of leaf share. -/
def names : List String :=
  ["type", "id", "styleId", "style", "padding", "width", "height", "text", "label", "data", "bind",
    "placeholder", "actions"]

/-- Reads a leaf: an object of the shared members and of the properties. -/
def ofJson? (json : Json) : Option Leaf := do
  let members ← json.members?
  let shared := members.filter fun member => names.contains member.1
  let others := members.filter fun member => !names.contains member.1
  if !Json.distinct shared then none
  let record : Json.Record json := shared
  let properties ← others.mapM fun (name, member) => member.1.value?.map fun v => (name, v)
  some {
    type := ← record.required "type" fun part => part.1.string?
    id := ← record.string? "id"
    styleId := ← record.string? "styleId"
    style := ← record.optional "style" fun part => StyleLayer.ofJson? part.1
    padding := ← record.optional "padding" fun part => Padding.ofJson? part.1
    width := ← record.float? "width"
    height := ← record.float? "height"
    text := ← record.string? "text"
    label := ← record.string? "label"
    data := ← record.optional "data" fun part => DataOrigin.ofJson? part.1
    bind := ← record.string? "bind"
    placeholder := ← record.string? "placeholder"
    actions := ← record.default "actions" .none fun part => LeafHandlers.ofJson? part.1
    properties := Fields.ofList properties }

end Leaf

/-- Reads the settings of a container. -/
def ContainerSettings.ofRecord? {json : Json} (kind : StackAxis) (record : Json.Record json) :
    Option ContainerSettings := do
  some {
    kind := kind
    id := ← record.string? "id"
    styleId := ← record.string? "styleId"
    style := ← record.optional "style" fun part => StyleLayer.ofJson? part.1
    padding := ← record.optional "padding" fun part => Padding.ofJson? part.1
    alignment := ← record.optional "alignment" fun part => part.1.choice? Alignment.ofName?
    spacing := ← record.float? "spacing" }

/-- Reads a spacer. -/
def Spacer.ofRecord? {json : Json} (record : Json.Record json) : Option Spacer := do
  some ⟨← record.float? "minLength", ← record.float? "width", ← record.float? "height"⟩

/-- Reads the settings of an iteration. -/
def ForEachSettings.ofRecord? {json : Json} (record : Json.Record json) :
    Option ForEachSettings := do
  some {
    id := ← record.string? "id"
    items := ← record.required "items" fun part => part.1.string?
    itemVariable := ← record.default "itemVariable" "item" fun part => part.1.string?
    indexVariable := ← record.default "indexVariable" "index" fun part => part.1.string?
    layout := ← record.default "layout" .vertical fun part => part.1.choice? StackAxis.ofName?
    spacing := ← record.float? "spacing"
    alignment := ← record.optional "alignment" fun part => part.1.choice? Alignment.ofName?
    padding := ← record.optional "padding" fun part => Padding.ofJson? part.1 }

/-- The type of a node: the member `type` of an object, a text. -/
def Json.nodeType? (json : Json) : Option String := do
  (← Fields.get? (← json.members?) "type").1.string?

mutual

/-- Reads a node from JSON without repeated members. -/
def Node.ofDistinct? (json : Json) : Option Node :=
  match json.nodeType? with
  | none => none
  | some "sectionLayout" => do
    let record ← json.record? ["id", "sectionSpacing", "sections"] 0
    some (.sectionLayout (← record.string? "id") (← record.float? "sectionSpacing")
      (← record.list "sections" fun part => Section.ofDistinct? part.1))
  | some "forEach" => do
    let record ← json.record? ["id", "items", "itemVariable", "indexVariable", "template",
      "emptyView", "layout", "spacing", "alignment", "padding"] 0
    some (.forEach (← ForEachSettings.ofRecord? record)
      (← record.required "template" fun part => Node.ofDistinct? part.1)
      (← record.optional "emptyView" fun part => Node.ofDistinct? part.1))
  | some "spacer" => do
    let record ← json.record? ["minLength", "width", "height"] 0
    some (.spacer (← Spacer.ofRecord? record))
  | some name =>
    match StackAxis.ofName? name with
    | some kind => do
      let record ← json.record? ["id", "styleId", "style", "padding", "alignment", "spacing",
        "children"] 0
      some (.container (← ContainerSettings.ofRecord? kind record)
        (← record.list "children" fun part => Node.ofDistinct? part.1))
    | none => (Leaf.ofJson? json).map .component
termination_by sizeOf json
decreasing_by all_goals exact part.2

/-- Reads a section from JSON without repeated members. -/
def Section.ofDistinct? (json : Json) : Option Section := do
  let record ← json.record? ["id", "layout", "header", "footer", "stickyHeader", "children"] 0
  some (.mk (← record.string? "id")
    (← record.default "layout" .unset fun part => SectionSettings.ofJson? part.1)
    (← record.optional "header" fun part => Node.ofDistinct? part.1)
    (← record.optional "footer" fun part => Node.ofDistinct? part.1)
    (← record.flag "stickyHeader")
    (← record.list "children" fun part => Node.ofDistinct? part.1))
termination_by sizeOf json
decreasing_by all_goals exact part.2

end

/-- Reads a node. -/
def Node.ofJson? (json : Json) : Option Node := do
  Node.ofDistinct? (Json.ofValue (← json.value?))

/-- Reads the actions of a screen. -/
def ScreenHandlers.ofJson? (json : Json) : Option ScreenHandlers := do
  let record ← json.record? ["onAppear", "onDisappear"] 0
  some ⟨← record.optional "onAppear" fun part => Handler.ofJson? part.1,
    ← record.optional "onDisappear" fun part => Handler.ofJson? part.1⟩

/-- Reads the root of a document. -/
def Root.ofJson? (json : Json) : Option Root := do
  let record ← json.record? ["backgroundColor", "edgeInsets", "styleId", "style", "colorScheme",
    "actions", "children"] 0
  some {
    backgroundColor := ← record.string? "backgroundColor"
    edgeInsets := ← record.optional "edgeInsets" fun part => Padding.ofJson? part.1
    styleId := ← record.string? "styleId"
    style := ← record.optional "style" fun part => StyleLayer.ofJson? part.1
    colorScheme := ← record.optional "colorScheme" fun part => part.1.choice? ColorScheme.ofName?
    actions := ← record.default "actions" ⟨none, none⟩ fun part => ScreenHandlers.ofJson? part.1
    children := ← record.list "children" fun part => Node.ofJson? part.1 }

namespace Document

/-- Reads a document. Only the identifier and the root are required. -/
def ofJson? (json : Json) : Option Document := do
  let record ← json.record? ["id", "version", "state", "styles", "dataSources", "actions",
    "root"] 7
  some {
    id := ← record.required "id" fun part => part.1.string?
    version := ← record.string? "version"
    state := ← record.default "state" [] fun part => part.1.map? Json.value?
    styles := ← record.default "styles" [] fun part => StyleTable.ofJson? part.1
    dataSources := ← record.default "dataSources" [] fun part => part.1.map? DataSource.ofJson?
    actions := ← record.default "actions" [] fun part => ActionTable.ofJson? part.1
    root := ← record.required "root" fun part => Root.ofJson? part.1 }

/-- Reads a document from its text. -/
def ofText? (text : String) : Option Document :=
  (Json.ofText? text).bind ofJson?

/-- Reads a document from a value. -/
def ofValue? (value : Value) : Option Document :=
  ofJson? (Json.ofValue value)

end Document

end ScreenDoc
