import ScreenDoc.Text.Integer
import ScreenDoc.Value.Basic

/-!
# Numbers of JSON

The value of a number from its digits.

## Main definitions

- `Json.Number` — the parts of a number as written
- `Json.Number.value?` — its value

## Design notes

An integer that fits into 64 bits is an integer, except for minus zero. Every other number becomes a
float in two steps: as many leading digits as fit into an unsigned word of 64 bits make up the
significand, and the digits after these only count for the exponent; then the significand is rounded
to a float and multiplied or divided by one power of ten. So a number with many digits need not be
the float nearest to it.
-/

namespace ScreenDoc

namespace Json

/-- A number as written: sign, digits, decimals and exponent. -/
structure Number where
  /-- Whether there is a minus sign. -/
  negative : Bool
  /-- The digits before the point. -/
  whole : List Char
  /-- The digits after the point. -/
  decimals : Option (List Char)
  /-- The sign of the exponent and its digits. -/
  exponent : Option (Bool × List Char)

namespace Number

/-- The bound on a significand. -/
def maxSignificand : Nat := 18446744073709551615

/-- Appends digits to a significand as long as it stays in its bound; the rest is returned. -/
def absorb : Nat → List Char → Nat × List Char
  | significand, [] => (significand, [])
  | significand, c :: rest =>
    let next := 10 * significand + Text.digitValue c
    if next ≤ maxSignificand then absorb next rest else (significand, c :: rest)

/-- Ten to the power of `n` as a float. -/
def powerOfTen (n : Nat) : Float :=
  Float.ofScientific 1 false n

/-- The greatest exponent of a power of ten among the floats. -/
def maxPower : Nat := 308

/-- `f * 10 ^ exponent` by one multiplication or division, or by several divisions for an exponent
far below zero. No result is beyond the range of floats. A quotient that has reached zero stays
zero, so that three divisions suffice. -/
def scale? : Nat → Float → Int → Option Float
  | 0, f, _ => some f
  | steps + 1, f, exponent =>
    if exponent.natAbs ≤ maxPower then
      if 0 ≤ exponent then
        let product := f * powerOfTen exponent.natAbs
        if product.isInf then none else some product
      else some (f / powerOfTen exponent.natAbs)
    else if f == 0.0 then some f
    else if 0 ≤ exponent then none
    else scale? steps (f / powerOfTen maxPower) (exponent + maxPower)

/-- The float for a significand and an exponent of ten. -/
def float? (negative : Bool) (significand : Nat) (exponent : Int) : Option Float :=
  (scale? 4 (Float.ofNat significand) exponent).map fun f => if negative then -f else f

/-- The greatest value of the digits of an exponent. -/
def maxExponent : Nat := 2147483647

/-- The float for a significand with an exponent, and the exponent that is written after it. An
exponent out of its own bound makes zero, or a number out of range. -/
def withExponent? (negative : Bool) (significand : Nat) (exponent : Int) :
    Option (Bool × List Char) → Option Float
  | none => float? negative significand exponent
  | some (below, digits) =>
    let n := Text.digitsValue digits
    if n ≤ maxExponent then
      float? negative significand (if below then exponent - n else exponent + n)
    else if significand ≠ 0 && !below then none
    else some (if negative then -0.0 else 0.0)

/-- The value of an integer whose digits fit into a significand. -/
def ofInteger (negative : Bool) (significand : Nat) : Value :=
  if negative then
    if significand = 0 || 9223372036854775808 < significand then
      .double (-(Float.ofNat significand))
    else .int (Int64.ofInt (-(significand : Int)))
  else Value.ofNat significand

/-- The value of a number; there is none beyond the range of floats. -/
def value? (n : Number) : Option Value :=
  match absorb 0 n.whole, n.decimals with
  | (significand, rest), some decimals =>
    let (digits, ignored) := absorb significand decimals
    let exponent : Int := (rest.length : Int) - (decimals.length - ignored.length : Nat)
    (withExponent? n.negative digits exponent n.exponent).map .double
  | (significand, rest), none =>
    if n.exponent.isNone && rest.isEmpty then some (ofInteger n.negative significand)
    else (withExponent? n.negative significand rest.length n.exponent).map .double

end Number

end Json

end ScreenDoc
