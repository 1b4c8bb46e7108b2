import ScreenDoc.Value.Basic

/-!
# JSON as written

JSON between text and values. An object still has all its members in the order of the text, with
repetitions, and parts that no value can be read from are marked and do no harm unless they are
read.

## Main definitions

- `Json` — JSON as written
- `Json.ofValue` — the JSON of a value
- `Json.value?` — the value that JSON stands for; of repeated members the last counts

## Design notes

A reader of a record takes the members that it knows and skips the rest. What it skips need not be
readable: a number beyond the range of floats, a text with half of a surrogate pair and nesting
beyond the limit are refused only where they are read. `Json.unreadable` and a missing member name
stand for these.
-/

namespace ScreenDoc

/-- JSON as written. -/
inductive Json where
  /-- Well formed text from which no value can be read. -/
  | unreadable
  /-- Null, a boolean, a number or a text. -/
  | scalar (value : Value)
  | array (items : List Json)
  /-- Members in the order of the text; a name is missing if it cannot be read. -/
  | object (members : List (Option String × Json))

namespace Json

instance : Inhabited Json := ⟨.unreadable⟩

mutual

/-- The JSON of a value. -/
def ofValue : Value → Json
  | .array items => .array (ofItems items)
  | .object fields => .object (ofFields fields)
  | .null => .scalar .null
  | .bool b => .scalar (.bool b)
  | .int n => .scalar (.int n)
  | .double d => .scalar (.double d)
  | .string s => .scalar (.string s)

/-- The JSON of the items of an array. -/
def ofItems : List Value → List Json
  | [] => []
  | item :: rest => ofValue item :: ofItems rest

/-- The members for the fields of an object. -/
def ofFields : List (String × Value) → List (Option String × Json)
  | [] => []
  | (name, value) :: rest => (some name, ofValue value) :: ofFields rest

end

mutual

/-- The value that JSON stands for, if all of it can be read. -/
def value? : Json → Option Value
  | .unreadable => none
  | .scalar value => some value
  | .array items => (items? items).map .array
  | .object members => (fields? members).map fun pairs => .object (Fields.ofList pairs)

/-- The values of the items of an array. -/
def items? : List Json → Option (List Value)
  | [] => some []
  | item :: rest => do
    let value ← value? item
    let values ← items? rest
    some (value :: values)

/-- The names and values of the members of an object, in the order of the text. -/
def fields? : List (Option String × Json) → Option (List (String × Value))
  | [] => some []
  | (name, member) :: rest => do
    let name ← name
    let value ← value? member
    let fields ← fields? rest
    some ((name, value) :: fields)

end

/-- Whether JSON is the literal null. -/
def isNull : Json → Bool
  | .scalar .null => true
  | _ => false

end Json

end ScreenDoc
