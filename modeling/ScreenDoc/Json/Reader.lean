import ScreenDoc.Json.Basic
import ScreenDoc.Json.Number

/-!
# Reading JSON text

## Main definitions

- `Json.ofText?` — the JSON that a text is
- `Value.ofText?` — the value that a text of JSON stands for

## Design notes

A reader takes the text that is left and gives back what it read and what is left after it. Each
nested reader is entered after at least one character, so the length of the text bounds the
recursion.
-/

namespace ScreenDoc

namespace Json

/-- Arrays and objects nested deeper than this cannot be read. -/
def maxNesting : Nat := 127

/-- The blanks between the parts of JSON. -/
def isSpace (c : Char) : Bool :=
  c = ' ' || c = '\t' || c = '\n' || c = '\r'

/-- A text without the spaces in front. -/
def skipSpace (text : List Char) : List Char :=
  text.dropWhile isSpace

/-- The value of a hexadecimal digit. -/
def hexDigit? (c : Char) : Option Nat :=
  if c.isDigit then some (c.toNat - '0'.toNat)
  else if 'a' ≤ c && c ≤ 'f' then some (c.toNat - 'a'.toNat + 10)
  else if 'A' ≤ c && c ≤ 'F' then some (c.toNat - 'A'.toNat + 10)
  else none

/-- Four hexadecimal digits. -/
def hexCode? : List Char → Option (Nat × List Char)
  | a :: b :: c :: d :: rest => do
    let a ← hexDigit? a
    let b ← hexDigit? b
    let c ← hexDigit? c
    let d ← hexDigit? d
    some (((a * 16 + b) * 16 + c) * 16 + d, rest)
  | _ => none

/-- The first half of a surrogate pair. -/
def isLeading (code : Nat) : Bool :=
  0xD800 ≤ code && code ≤ 0xDBFF

/-- The second half of a surrogate pair. -/
def isTrailing (code : Nat) : Bool :=
  0xDC00 ≤ code && code ≤ 0xDFFF

/-- The character of an escape by code, and the text after it. There is no character for half of a
surrogate pair. -/
def codeEscape? (text : List Char) : Option (Option Char × List Char) := do
  let (code, rest) ← hexCode? text
  if isLeading code then
    match rest with
    | '\\' :: 'u' :: after =>
      match hexCode? after with
      | some (second, rest') =>
        if isTrailing second then
          some (some (Char.ofNat (0x10000 + (code - 0xD800) * 0x400 + (second - 0xDC00))), rest')
        else some (none, rest)
      | none => some (none, rest)
    | _ => some (none, rest)
  else if isTrailing code then some (none, rest)
  else some (some (Char.ofNat code), rest)

/-- The character of a short escape. -/
def shortEscape? (c : Char) : Option Char :=
  if c = '"' || c = '\\' || c = '/' then some c
  else if c = 'b' then some '\x08'
  else if c = 'f' then some '\x0c'
  else if c = 'n' then some '\n'
  else if c = 'r' then some '\r'
  else if c = 't' then some '\t'
  else none

/-- A text up to its closing quotation mark, without a value if part of it has none. -/
def textBody : Nat → List Char → Option (Option (List Char) × List Char)
  | 0, _ => none
  | _ + 1, [] => none
  | _ + 1, '"' :: rest => some (some [], rest)
  | fuel + 1, '\\' :: 'u' :: rest => do
    let (c, rest) ← codeEscape? rest
    let (body, rest) ← textBody fuel rest
    some (c.bind fun c => body.map (c :: ·), rest)
  | fuel + 1, '\\' :: c :: rest => do
    let c ← shortEscape? c
    let (body, rest) ← textBody fuel rest
    some (body.map (c :: ·), rest)
  | fuel + 1, c :: rest => do
    if c.toNat < 0x20 || c = '\\' then failure
    let (body, rest) ← textBody fuel rest
    some (body.map (c :: ·), rest)

/-- A text after its opening quotation mark. -/
def text? (input : List Char) : Option (Option String × List Char) := do
  let (body, rest) ← textBody input.length.succ input
  some (body.map String.ofList, rest)

/-- One or more digits. -/
def digitRun? (input : List Char) : Option (List Char × List Char) :=
  let digits := input.takeWhile Char.isDigit
  if digits.isEmpty then none else some (digits, input.dropWhile Char.isDigit)

/-- The exponent of a number, if one follows. -/
def exponentPart? : List Char → Option (Option (Bool × List Char) × List Char)
  | c :: rest =>
    if c = 'e' || c = 'E' then do
      let (below, rest) := match rest with
        | '-' :: rest => (true, rest)
        | '+' :: rest => (false, rest)
        | rest => (false, rest)
      let (digits, rest) ← digitRun? rest
      some (some (below, digits), rest)
    else some (none, c :: rest)
  | [] => some (none, [])

/-- A number: no digit follows a leading zero, and digits follow a point. -/
def number? (input : List Char) : Option (Number × List Char) := do
  let (negative, rest) := match input with
    | '-' :: rest => (true, rest)
    | rest => (false, rest)
  let (whole, rest) ← digitRun? rest
  if whole.head? = some '0' && whole.length ≠ 1 then failure
  let (decimals, rest) ← match rest with
    | '.' :: rest => do
      let (decimals, rest) ← digitRun? rest
      some (some decimals, rest)
    | rest => some (none, rest)
  let (exponent, rest) ← exponentPart? rest
  some (⟨negative, whole, decimals, exponent⟩, rest)

/-- Marks what is nested too deep. -/
def atDepth (depth : Nat) (json : Json) : Json :=
  if depth ≤ maxNesting then json else .unreadable

/-- The JSON of a scalar that may be unreadable. -/
def ofScalar? : Option Value → Json
  | some value => .scalar value
  | none => .unreadable

mutual

/-- JSON at a depth, which counts the arrays and objects around and including it. -/
def json? : Nat → Nat → List Char → Option (Json × List Char)
  | 0, _, _ => none
  | fuel + 1, depth, input =>
    match skipSpace input with
    | '"' :: rest => do
      let (body, rest) ← text? rest
      some (ofScalar? (body.map .string), rest)
    | '[' :: rest =>
      match skipSpace rest with
      | ']' :: rest => some (atDepth depth (.array []), rest)
      | rest => do
        let (items, rest) ← itemList? fuel depth rest
        some (atDepth depth (.array items), rest)
    | '\x7b' :: rest =>
      match skipSpace rest with
      | '\x7d' :: rest => some (atDepth depth (.object []), rest)
      | rest => do
        let (members, rest) ← memberList? fuel depth rest
        some (atDepth depth (.object members), rest)
    | 't' :: 'r' :: 'u' :: 'e' :: rest => some (.scalar (.bool true), rest)
    | 'f' :: 'a' :: 'l' :: 's' :: 'e' :: rest => some (.scalar (.bool false), rest)
    | 'n' :: 'u' :: 'l' :: 'l' :: rest => some (.scalar .null, rest)
    | rest => do
      let (number, rest) ← number? rest
      some (ofScalar? number.value?, rest)

/-- The items of an array up to its closing bracket. -/
def itemList? : Nat → Nat → List Char → Option (List Json × List Char)
  | 0, _, _ => none
  | fuel + 1, depth, input => do
    let (item, rest) ← json? fuel (depth + 1) input
    match skipSpace rest with
    | ']' :: rest => some ([item], rest)
    | ',' :: rest =>
      let (items, rest) ← itemList? fuel depth rest
      some (item :: items, rest)
    | _ => none

/-- The members of an object up to its closing brace. -/
def memberList? : Nat → Nat → List Char → Option (List (Option String × Json) × List Char)
  | 0, _, _ => none
  | fuel + 1, depth, input =>
    match skipSpace input with
    | '"' :: rest => do
      let (name, rest) ← text? rest
      match skipSpace rest with
      | ':' :: rest =>
        let (member, rest) ← json? fuel (depth + 1) rest
        match skipSpace rest with
        | '\x7d' :: rest => some ([(name, member)], rest)
        | ',' :: rest =>
          let (members, rest) ← memberList? fuel depth rest
          some ((name, member) :: members, rest)
        | _ => none
      | _ => none
    | _ => none

end

/-- The JSON that a whole text is. -/
def ofText? (text : String) : Option Json := do
  let input := text.toList
  let (json, rest) ← json? (2 * input.length + 2) 1 input
  if (skipSpace rest).isEmpty then some json else none

end Json

/-- The value that a text of JSON stands for. -/
def Value.ofText? (text : String) : Option Value :=
  (Json.ofText? text).bind Json.value?

end ScreenDoc
