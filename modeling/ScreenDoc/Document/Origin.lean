import ScreenDoc.Json.Record

/-!
# Data of a document

Where the value of a leaf comes from.

## Main definitions

- `DataOrigin` — a fixed value, a place in the state or a template, or a data source by its name
- `DataSource` — a data source of the document
-/

namespace ScreenDoc

/-- Where a value comes from. -/
inductive DataOrigin where
  | static (value : Value)
  /-- A place in the state or a template; the place counts if both are given. -/
  | binding (path : Option String) (template : Option String)
  /-- A data source of the document. -/
  | source (id : String)

/-- A data source of a document. -/
inductive DataSource where
  | static (value : Value)
  | binding (path : String)

namespace DataOrigin

/-- A place in the state. -/
def ofPath (path : String) : DataOrigin := .binding (some path) none

/-- A template. -/
def ofTemplate (template : String) : DataOrigin := .binding none (some template)

/-- Reads an origin. -/
def ofJson? (json : Json) : Option DataOrigin :=
  match json.tagged? with
  | some ("static", rest) => do
    let record ← rest.record? ["value"] 1
    some (.static (← record.required "value" fun part => part.1.value?))
  | some ("binding", rest) => do
    let record ← rest.record? ["path", "template"] 0
    some (.binding (← record.string? "path") (← record.string? "template"))
  | some ("dataSource", rest) => do
    let record ← rest.record? ["id"] 1
    some (.source (← record.required "id" fun part => part.1.string?))
  | _ => none

/-- A text, or null. -/
def orNull : Option String → Value
  | some s => .string s
  | none => .null

/-- Writes an origin. -/
def toValue : DataOrigin → Value
  | .static value => .object [("type", .string "static"), ("value", value)]
  | .binding path template =>
    .object [("path", orNull path), ("template", orNull template), ("type", .string "binding")]
  | .source id => .object [("id", .string id), ("type", .string "dataSource")]

end DataOrigin

namespace DataSource

/-- Reads a data source. -/
def ofJson? (json : Json) : Option DataSource :=
  match json.tagged? with
  | some ("static", rest) => do
    let record ← rest.record? ["value"] 1
    some (.static (← record.required "value" fun part => part.1.value?))
  | some ("binding", rest) => do
    let record ← rest.record? ["path"] 1
    some (.binding (← record.required "path" fun part => part.1.string?))
  | _ => none

/-- Writes a data source. -/
def toValue : DataSource → Value
  | .static value => .object [("type", .string "static"), ("value", value)]
  | .binding path => .object [("path", .string path), ("type", .string "binding")]

end DataSource

end ScreenDoc
