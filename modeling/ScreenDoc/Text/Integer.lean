/-!
# Integers in text

Reading decimal integers. A number is a run of ASCII digits, with a sign where the reader takes one,
and its value has to lie in the range of the word it is read for.

## Main definitions

- `Text.digits?` — the value of a text that consists of digits
- `Text.int64?` — a signed integer of 64 bits, with an optional sign
- `Text.index?` — a position: an unsigned integer of 64 bits, with an optional plus sign
-/

namespace ScreenDoc

namespace Text

/-- The least integer of 64 bits. -/
def minInt64 : Int := -9223372036854775808

/-- The greatest integer of 64 bits. -/
def maxInt64 : Int := 9223372036854775807

/-- Whether an integer can be held in 64 bits. -/
def fitsInt64 (n : Int) : Bool :=
  minInt64 ≤ n && n ≤ maxInt64

/-- The greatest position that a path can name. -/
def maxIndex : Nat := 18446744073709551615

/-- The value of an ASCII digit. -/
def digitValue (c : Char) : Nat :=
  c.toNat - '0'.toNat

/-- The value of a run of digits, the most significant first. -/
def digitsValue (digits : List Char) : Nat :=
  digits.foldl (fun value c => 10 * value + digitValue c) 0

/-- The value of a text of one or more ASCII digits. -/
def digits? (text : List Char) : Option Nat :=
  if !text.isEmpty && text.all Char.isDigit then some (digitsValue text) else none

/-- An integer of 64 bits: an optional sign and digits. -/
def int64? (text : List Char) : Option Int64 := do
  let n ← match text with
    | '-' :: rest => (digits? rest).map fun n => -(n : Int)
    | '+' :: rest => (digits? rest).map fun n => (n : Int)
    | rest => (digits? rest).map fun n => (n : Int)
  if fitsInt64 n then some (Int64.ofInt n) else none

/-- A position: an optional plus sign and digits, of value at most `maxIndex`. -/
def index? (text : List Char) : Option Nat := do
  let n ← match text with
    | '+' :: rest => digits? rest
    | rest => digits? rest
  if n ≤ maxIndex then some n else none

end Text

end ScreenDoc
