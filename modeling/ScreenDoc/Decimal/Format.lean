import ScreenDoc.Decimal.Shortest

/-!
# Number formats

How the chosen digits of a number are laid out as text.

## Main definitions

- `Decimal.Format` — where positional notation ends, how a whole number and an exponent look,
  and which way ties go
- `Decimal.Format.text` — the text of a float
- `Decimal.display`, `Decimal.plain`, `Decimal.json` — the three formats of this library
-/

namespace ScreenDoc

namespace Decimal

/-- The decisions of a number format. Exponents are those of the leading digit. -/
structure Format where
  /-- The exponents that are written positionally. -/
  positional : Int → Bool
  /-- Whether a whole number is written with the decimals `.0`. -/
  pointZero : Bool
  /-- Whether a positive exponent is written with a plus sign. -/
  exponentPlus : Bool
  /-- Which of two equally near shortest decimals is written. -/
  tie : Tie

/-- The digits of a natural number. -/
def digitsOf (n : Nat) : List Char :=
  Nat.toDigits 10 n

/-- Digits with the point after the first `place` of them, for a number below one preceded by
zeros. -/
def positionalDigits (pointZero : Bool) (digits : List Char) (place : Int) : List Char :=
  if place ≤ 0 then '0' :: '.' :: (List.replicate (-place).toNat '0' ++ digits)
  else if (digits.length : Int) ≤ place then
    digits ++ List.replicate (place.toNat - digits.length) '0' ++
      (if pointZero then ['.', '0'] else [])
  else digits.take place.toNat ++ '.' :: digits.drop place.toNat

/-- The text of a magnitude. -/
def Format.magnitude (n : Format) (x : Binary) : List Char :=
  let d := x.shortest n.tie
  if d.digits == 0 then if n.pointZero then ['0', '.', '0'] else ['0']
  else
    let digits := digitsOf d.digits
    let leading : Int := d.exponent + (digits.length : Int) - 1
    if n.positional leading then positionalDigits n.pointZero digits (leading + 1)
    else
      let mantissa := match digits with
        | [] | [_] => digits
        | first :: rest => first :: '.' :: rest
      let sign := if leading < 0 then ['-'] else if n.exponentPlus then ['+'] else []
      mantissa ++ 'e' :: (sign ++ digitsOf leading.natAbs)

/-- The text of a float: its sign and its magnitude, or the name of what is no number. -/
def Format.text (n : Format) (x : Float) : String :=
  if x.isNaN then "NaN"
  else
    let bits := x.toBits
    let sign := if bits >>> 63 == 1 then ['-'] else []
    if x.isInf then String.ofList (sign ++ "inf".toList)
    else String.ofList (sign ++ n.magnitude (Binary.ofBits bits))

/-- Numbers as they are shown: the decimals `.0` on a whole number, and an exponent from `1e16` on
and below `1e-4`. -/
def display : Format where
  positional e := -4 ≤ e && e < 16
  pointZero := true
  exponentPlus := false
  tie := .awayFromZero

/-- Numbers as they are named inside a sentence: always positional, a whole number without
decimals. -/
def plain : Format where
  positional _ := true
  pointZero := false
  exponentPlus := false
  tie := .awayFromZero

/-- Numbers inside JSON text: an exponent, with its sign, from `1e+16` on and below `1e-5`. -/
def json : Format where
  positional e := -5 ≤ e && e < 16
  pointZero := true
  exponentPlus := true
  tie := .toEven

end Decimal

end ScreenDoc
