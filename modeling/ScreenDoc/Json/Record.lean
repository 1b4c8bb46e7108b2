import ScreenDoc.Json.Basic
import ScreenDoc.Value.Kind

/-!
# Records in JSON

Reading of the members of a record: which members it has, which may be missing, and which may be
null.

## Main definitions

- `Json.Part` — a part of JSON, with the fact that it is smaller
- `Json.record?` — the members of a record, from an object or from an array in their order
- `Json.Record.optional`, `Json.Record.default`, `Json.Record.required` — one member of a record
- `Json.choice?` — a word out of a list of words
- `Json.tagged?` — the tag of a union and its other members

## Design notes

A member that is not known is skipped, and a known member must not be repeated. A record may also be
written as an array of its members in their order; then those that may be missing may be left out at
the end only.
-/

namespace ScreenDoc

namespace Json

/-- A part of JSON. -/
abbrev Part (json : Json) := { part : Json // sizeOf part < sizeOf json }

/-- The members of a record by their names. -/
abbrev Record (json : Json) := List (String × Part json)

/-- The items of an array. -/
def parts? : (json : Json) → Option (List (Part json))
  | .array items => some <| items.attach.map fun ⟨item, h⟩ =>
    ⟨item, by
      have := List.sizeOf_lt_of_mem h
      simp only [Json.array.sizeOf_spec]
      omega⟩
  | _ => none

/-- The members of an object in the order of the text, if their names can be read. -/
def members? : (json : Json) → Option (Record json)
  | .object members => members.attach.mapM fun ⟨(name, member), h⟩ =>
    name.map fun name => (name, ⟨member, by
      have := List.sizeOf_lt_of_mem h
      simp only [Prod.mk.sizeOf_spec] at this
      simp only [Json.object.sizeOf_spec]
      omega⟩)
  | _ => none

/-- Whether no name occurs twice. -/
def distinct {α : Type} (members : List (String × α)) : Bool :=
  (members.map Prod.fst).eraseDups.length = members.length

/-- The members of a record with these names. Written as an array it has at least the given number
of members. -/
def record? (names : List String) (least : Nat) (json : Json) : Option (Record json) :=
  match json.members? with
  | some members =>
    let known := members.filter fun member => names.contains member.1
    if distinct known then some known else none
  | none => do
    let items ← json.parts?
    if least ≤ items.length && items.length ≤ names.length then some (names.zip items) else none

/-- A text. -/
def string? : Json → Option String
  | .scalar value => value.string?
  | _ => none

/-- A boolean. -/
def bool? : Json → Option Bool
  | .scalar value => value.bool?
  | _ => none

/-- A number as a float. -/
def float? : Json → Option Float
  | .scalar value => value.float?
  | _ => none

/-- A word, written as a text or as the only member of an object. The value of the member is null;
where the record around it has been read ahead, it may also be an empty object. -/
def word? (readAhead : Bool) : Json → Option String
  | .scalar (.string s) => some s
  | .object [(name, .scalar .null)] => name
  | .object [(name, .object [])] => if readAhead then name else none
  | _ => none

/-- One of several things by its word. -/
def choice? {α : Type} (ofName? : String → Option α) (json : Json) : Option α :=
  (json.word? false).bind ofName?

/-- The names and values of a map. Every member is read; of repeated ones the last counts. -/
def map? {α : Type} (reader : Json → Option α) (json : Json) : Option (List (String × α)) := do
  let members ← json.members?
  let pairs ← members.mapM fun (name, member) => (reader member.1).map fun value => (name, value)
  some (Fields.ofList pairs)

/-- Whether all of some JSON can be read. -/
def isReadable (json : Json) : Bool :=
  json.value?.isSome

/-- The tag of a union, from the member `type` or the first item of an array, and the other
members as JSON. All of it is read. -/
def tagged? (json : Json) : Option (String × Json) :=
  if json.isReadable then
    match json with
    | .object members =>
      match members.filter fun member => member.1 = some "type" with
      | [(_, tag)] => tag.string?.map fun tag =>
        (tag, .object (members.filter fun member => member.1 ≠ some "type"))
      | _ => none
    | .array (tag :: items) => tag.string?.map fun tag => (tag, .array items)
    | _ => none
  else none

namespace Record

variable {json : Json} {α : Type}

/-- The member of this name. -/
def get? (record : Record json) (name : String) : Option (Part json) :=
  Fields.get? record name

/-- A member that may be missing or null. -/
def optional (record : Record json) (name : String) (reader : Part json → Option α) :
    Option (Option α) :=
  match record.get? name with
  | none => some none
  | some part => if part.1.isNull then some none else (reader part).map some

/-- A member that may be missing, but not null. -/
def default (record : Record json) (name : String) (value : α) (reader : Part json → Option α) :
    Option α :=
  match record.get? name with
  | none => some value
  | some part => reader part

/-- A member that must be there. -/
def required (record : Record json) (name : String) (reader : Part json → Option α) :
    Option α :=
  (record.get? name).bind reader

/-- A text that may be missing or null. -/
def string? (record : Record json) (name : String) : Option (Option String) :=
  record.optional name fun part => part.1.string?

/-- A number that may be missing or null. -/
def float? (record : Record json) (name : String) : Option (Option Float) :=
  record.optional name fun part => part.1.float?

/-- A boolean that is false if it is missing. -/
def flag (record : Record json) (name : String) : Option Bool :=
  record.default name false fun part => part.1.bool?

/-- A list that is empty if it is missing. -/
def list (record : Record json) (name : String) (reader : Part json → Option α) :
    Option (List α) :=
  record.default name [] fun part => do
    let items ← part.1.parts?
    items.mapM fun item => reader ⟨item.1, Nat.lt_trans item.2 part.2⟩

end Record

end Json

end ScreenDoc
