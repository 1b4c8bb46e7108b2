import ScreenDoc.Decimal.Format
import ScreenDoc.Value.Basic

/-!
# The text of a value

## Main definitions

- `Value.compact` — compact JSON
- `Value.text` — the text that stands for a value inside a template

## Design notes

Compact JSON has no spaces, and the members of an object in ascending order of their names. A number
that is not finite has no JSON and is written as null.
-/

namespace ScreenDoc

namespace Value

/-- A hexadecimal digit in lower case. -/
def hexDigit (n : Nat) : Char :=
  Nat.digitChar n

/-- A character inside a JSON text: quotation mark, backslash and controls are escaped, all else is
written as it is. -/
def compactChar (c : Char) : List Char :=
  if c = '"' then ['\\', '"']
  else if c = '\\' then ['\\', '\\']
  else if c = '\x08' then ['\\', 'b']
  else if c = '\x0c' then ['\\', 'f']
  else if c = '\n' then ['\\', 'n']
  else if c = '\r' then ['\\', 'r']
  else if c = '\t' then ['\\', 't']
  else if c.toNat < 0x20 then
    ['\\', 'u', '0', '0', hexDigit (c.toNat / 16), hexDigit (c.toNat % 16)]
  else [c]

/-- A JSON text. -/
def compactString (s : String) : String :=
  String.ofList ('"' :: (s.toList.flatMap compactChar ++ ['"']))

/-- A JSON number, or null for one that is not finite. -/
def compactDouble (d : Float) : String :=
  if d.isFinite then Decimal.json.text d else "null"

mutual

/-- The compact JSON of a value. -/
def compact : Value → String
  | .null => "null"
  | .bool b => if b then "true" else "false"
  | .int n => toString n.toInt
  | .double d => compactDouble d
  | .string s => compactString s
  | .array items => "[" ++ compactItems true items ++ "]"
  | .object fields => "\x7b" ++ compactFields true fields ++ "\x7d"

/-- The items of an array, each but the first after a comma. -/
def compactItems : Bool → List Value → String
  | _, [] => ""
  | first, item :: rest => (if first then "" else ",") ++ compact item ++ compactItems false rest

/-- The members of an object, each but the first after a comma. -/
def compactFields : Bool → List (String × Value) → String
  | _, [] => ""
  | first, (name, value) :: rest =>
    (if first then "" else ",") ++ compactString name ++ ":" ++ compact value ++
      compactFields false rest

end

/-- The text of a value: nothing for null, a text as it is, an array or object as compact JSON. -/
def text : Value → String
  | .null => ""
  | .bool b => if b then "true" else "false"
  | .int n => toString n.toInt
  | .double d => Decimal.display.text d
  | .string s => s
  | .array items => compact (.array items)
  | .object fields => compact (.object fields)

mutual

/-- A value as JSON can hold it: null in the place of a number that is not finite. -/
def finite : Value → Value
  | .double d => if d.isFinite then .double d else .null
  | .array items => .array (finiteItems items)
  | .object fields => .object (finiteFields fields)
  | .null => .null
  | .bool b => .bool b
  | .int n => .int n
  | .string s => .string s

/-- The items of an array as JSON can hold them. -/
def finiteItems : List Value → List Value
  | [] => []
  | item :: rest => finite item :: finiteItems rest

/-- The fields of an object as JSON can hold them. -/
def finiteFields : List (String × Value) → List (String × Value)
  | [] => []
  | (name, value) :: rest => (name, finite value) :: finiteFields rest

end

end Value

end ScreenDoc
