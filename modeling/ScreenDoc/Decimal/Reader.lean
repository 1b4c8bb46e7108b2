import ScreenDoc.Text.Integer

/-!
# Reading floating point numbers

Decimals in text, rounded to the nearest float.

## Main definitions

- `Decimal.float?` — the float that a text writes: decimals, an exponent, or the name of what is no
  number
-/

namespace ScreenDoc

namespace Decimal

/-- The exponent of a decimal: an optional sign and digits. -/
def exponent? (text : List Char) : Option Int :=
  match text with
  | '-' :: rest => (Text.digits? rest).map fun n => -(n : Int)
  | '+' :: rest => (Text.digits? rest).map fun n => (n : Int)
  | rest => (Text.digits? rest).map fun n => (n : Int)

/-- The float nearest to `digits * 10 ^ exponent`. An exponent so far out that the digits cannot
make up for it gives zero or infinity. -/
def nearest (digits : Nat) (exponent : Int) : Float :=
  let size : Int := (Nat.toDigits 10 digits).length
  if digits = 0 then 0.0
  else if exponent + size > 400 then Float.ofScientific 1 false 400
  else if exponent + size < -400 then 0.0
  else if exponent < 0 then Float.ofScientific digits true exponent.natAbs
  else Float.ofScientific digits false exponent.toNat

/-- Digits with an optional point among them, and an optional exponent. -/
def unsigned? (text : List Char) : Option Float := do
  let whole := text.takeWhile Char.isDigit
  let rest := text.dropWhile Char.isDigit
  let (decimals, rest) := match rest with
    | '.' :: rest => (rest.takeWhile Char.isDigit, rest.dropWhile Char.isDigit)
    | rest => ([], rest)
  if whole.isEmpty && decimals.isEmpty then failure
  let exponent ← match rest with
    | [] => some 0
    | c :: rest => if c = 'e' || c = 'E' then exponent? rest else none
  some (nearest (Text.digitsValue (whole ++ decimals)) (exponent - decimals.length))

/-- A magnitude: a decimal, or the name of infinity or of what is no number, in any case. -/
def magnitude? (text : List Char) : Option Float :=
  let name := String.ofList (text.map Char.toLower)
  if name = "inf" || name = "infinity" then some (1.0 / 0.0)
  else if name = "nan" then some (0.0 / 0.0)
  else unsigned? text

/-- The float that a text writes, with an optional sign. -/
def float? (text : List Char) : Option Float :=
  match text with
  | '-' :: rest => (magnitude? rest).map fun x => -x
  | '+' :: rest => magnitude? rest
  | rest => magnitude? rest

end Decimal

end ScreenDoc
