import ScreenDoc.Decimal.Shortest
import ScreenDoc.Text.Integer

/-!
# Whole floating point numbers

## Main definitions

- `Decimal.truncate` — the integer part of a finite float
- `Decimal.isWhole` — whether a float is finite and has no fraction
- `Decimal.toInt64` — the integer part, limited to 64 bits
-/

namespace ScreenDoc

namespace Decimal

/-- The integer part of a magnitude. -/
def Binary.floor (x : Binary) : Nat :=
  x.m * Nat.pow 2 x.q.toNat / Nat.pow 2 (-x.q).toNat

/-- Whether a magnitude has no fraction. -/
def Binary.isWhole (x : Binary) : Bool :=
  x.m % Nat.pow 2 (-x.q).toNat == 0

/-- Whether the sign of a float is set. -/
def isNegative (x : Float) : Bool :=
  x.toBits >>> 63 == 1

/-- The integer part of a finite float, towards zero. -/
def truncate (x : Float) : Int :=
  let n : Int := (Binary.ofBits x.toBits).floor
  if isNegative x then -n else n

/-- Whether a float is finite and has no fraction. -/
def isWhole (x : Float) : Bool :=
  x.isFinite && (Binary.ofBits x.toBits).isWhole

/-- The integer part of a finite float; beyond 64 bits the nearest integer that fits. -/
def toInt64 (x : Float) : Int64 :=
  Int64.ofInt (max Text.minInt64 (min Text.maxInt64 (truncate x)))

end Decimal

end ScreenDoc
