import ScreenDoc.Decimal.Whole
import ScreenDoc.Text.Blank
import ScreenDoc.Value.Basic

/-!
# A value as one kind

What a value is when it is asked for as one kind.

## Main definitions

- `Value.bool?`, `Value.string?`, `Value.array?`, `Value.object?` — the value of exactly that kind
- `Value.int?` — an integer, also a whole float or a text that is an integer
- `Value.float?` — a number as a float
-/

namespace ScreenDoc

namespace Value

/-- Whether a value is null. -/
def isNull : Value → Bool
  | .null => true
  | _ => false

/-- A boolean. -/
def bool? : Value → Option Bool
  | .bool b => some b
  | _ => none

/-- An integer. A whole float counts, limited to 64 bits, and so does a text that is an integer
between blanks. -/
def int? : Value → Option Int64
  | .int n => some n
  | .double d => if Decimal.isWhole d then some (Decimal.toInt64 d) else none
  | .string s => Text.int64? (Text.trim s.toList)
  | _ => none

/-- A number as a float. -/
def float? : Value → Option Float
  | .int n => some (Float.ofInt n.toInt)
  | .double d => some d
  | _ => none

/-- A text. -/
def string? : Value → Option String
  | .string s => some s
  | _ => none

/-- The items of an array. -/
def array? : Value → Option (List Value)
  | .array items => some items
  | _ => none

/-- The fields of an object. -/
def object? : Value → Option (List (String × Value))
  | .object fields => some fields
  | _ => none

/-- The field of this name, of an object. -/
def field? (value : Value) (name : String) : Option Value :=
  value.object?.bind fun fields => Fields.get? fields name

end Value

end ScreenDoc
