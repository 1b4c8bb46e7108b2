/-!
# Shortest decimals

A finite binary floating point value stands for all reals that round to it. Of the decimals among
these, `shortest` chooses one with the fewest digits, and of those the one nearest to the value.

## Main definitions

- `Decimal.Binary` — a value `m * 2 ^ q`, read off the bits of a float
- `Decimal.Scaled` — a decimal `digits * 10 ^ exponent`
- `Decimal.Binary.readsBack` — whether a decimal rounds to a value
- `Decimal.Binary.shortest` — the fewest digits that read back

## Design notes

All comparisons are exact, by cross multiplication of natural numbers. The decimals with `n` digits
form a grid, and if any point of it reads back then one of the two neighbours of the value does; so
the search tests the two neighbours on the grids of one to seventeen digits.
-/

namespace ScreenDoc

namespace Decimal

/-- A finite value `m * 2 ^ q` without its sign. -/
structure Binary where
  /-- The significand. -/
  m : Nat
  /-- The binary exponent. -/
  q : Int
  /-- Whether the gap to the value below is half of the gap to the value above. -/
  narrowBelow : Bool
deriving DecidableEq, Repr

/-- The magnitude that a finite pattern of bits stands for. -/
def Binary.ofBits (bits : UInt64) : Binary :=
  let exponent := ((bits >>> 52) &&& 0x7FF).toNat
  let fraction := (bits &&& 0xFFFFFFFFFFFFF).toNat
  if exponent == 0 then ⟨fraction, -1074, false⟩
  else ⟨4503599627370496 + fraction, (exponent : Int) - 1075, fraction == 0 && exponent > 1⟩

/-- The number `digits * 10 ^ exponent`. -/
structure Scaled where
  /-- The significant digits as one number. -/
  digits : Nat
  /-- The decimal exponent of the last digit. -/
  exponent : Int
deriving DecidableEq, Repr

/-- Which of two equally near decimals is taken. -/
inductive Tie where
  /-- The one whose last digit is even. -/
  | toEven
  /-- The one of greater magnitude. -/
  | awayFromZero
deriving DecidableEq, Repr

/-- Compares `a * 10 ^ i` with `n * 2 ^ j`, exactly. -/
def compareScaled (a : Nat) (i : Int) (n : Nat) (j : Int) : Ordering :=
  compare (a * Nat.pow 10 i.toNat * Nat.pow 2 (-j).toNat)
    (n * Nat.pow 2 j.toNat * Nat.pow 10 (-i).toNat)

/-- Whether a decimal lies among the reals that round to the value. The ends of that interval lie
halfway to the neighbours, and belong to it if the significand is even. -/
def Binary.readsBack (x : Binary) (d : Scaled) : Bool :=
  let low := if x.narrowBelow then 4 * x.m - 1 else 4 * x.m - 2
  let high := 4 * x.m + 2
  let endsIncluded := x.m % 2 == 0
  let fromLow := compareScaled d.digits d.exponent low (x.q - 2)
  let fromHigh := compareScaled d.digits d.exponent high (x.q - 2)
  (fromLow == .gt || (endsIncluded && fromLow == .eq)) &&
    (fromHigh == .lt || (endsIncluded && fromHigh == .eq))

/-- The least `k` with `m * 2 ^ q < 10 ^ k`, found from an estimate by the binary logarithm. -/
def Binary.scale (x : Binary) : Int :=
  let log2 : Int := (x.m.log2 : Int) + x.q
  let estimate : Int := log2 * 30103 / 100000 - 1
  let above (k : Int) : Bool := compareScaled 1 k x.m x.q == .gt
  ([estimate, estimate + 1, estimate + 2].find? above).getD (estimate + 3)

/-- Moves trailing zeros of the digits into the exponent. -/
def Scaled.strip (d : Scaled) : Scaled :=
  go d.digits d.digits d.exponent
where
  /-- One zero is moved at a time; no number has more zeros than its own value. -/
  go : Nat → Nat → Int → Scaled
    | 0, digits, exponent => ⟨digits, exponent⟩
    | fuel + 1, digits, exponent =>
      if digits ≠ 0 ∧ digits % 10 = 0 then go fuel (digits / 10) (exponent + 1)
      else ⟨digits, exponent⟩

/-- The greatest point of the grid `10 ^ exponent` that is not above the value. -/
def Binary.floorAt (x : Binary) (exponent : Int) : Nat :=
  (x.m * Nat.pow 2 x.q.toNat * Nat.pow 10 (-exponent).toNat) /
    (Nat.pow 2 (-x.q).toNat * Nat.pow 10 exponent.toNat)

/-- The nearer of the two neighbours of the value on a grid, of those that read back. -/
def Binary.onGrid (x : Binary) (tie : Tie) (exponent : Int) : Option Scaled :=
  let low : Scaled := ⟨x.floorAt exponent, exponent⟩
  let high : Scaled := ⟨low.digits + 1, exponent⟩
  match x.readsBack low, x.readsBack high with
  | true, true =>
    match compareScaled (low.digits + high.digits) exponent (2 * x.m) x.q with
    | .lt => some high
    | .gt => some low
    | .eq =>
      match tie with
      | .toEven => some (if low.digits % 2 == 0 then low else high)
      | .awayFromZero => some high
  | true, false => some low
  | false, true => some high
  | false, false => none

/-- The fewest digits that read back, with trailing zeros in the exponent. -/
def Binary.shortest (x : Binary) (tie : Tie) : Scaled :=
  if x.m == 0 then ⟨0, 0⟩
  else
    let k := x.scale
    match (List.range 17).findSome? fun (i : Nat) => x.onGrid tie (k - 1 - (i : Int)) with
    | some d => d.strip
    | none => Scaled.strip ⟨x.m * Nat.pow 2 x.q.toNat * Nat.pow 5 (-x.q).toNat,
        -((-x.q).toNat : Int)⟩

end Decimal

end ScreenDoc
