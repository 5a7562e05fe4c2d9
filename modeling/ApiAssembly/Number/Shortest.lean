import ApiAssembly.Number.Double

/-!
# Number — Shortest — the fewest digits that read back

The reals that round to a double form an interval around it, with its ends when the significand is
even. `Double.shortest` walks the decimal grids from the coarsest down and takes the first one with
a point in that interval, and of the two grid points beside the double the nearer one. A coarser
grid means fewer digits, so the text has as few as any decimal that reads back, and the digits are
the nearest of those.
-/

namespace ApiAssembly

/-- How many decimal digits a number has; zero has none. -/
def digitCount (n : Nat) : Nat :=
  if n = 0 then 0 else digitCount (n / 10) + 1

/-- A decimal `digits · 10^exponent`. -/
structure Decimal where
  digits : Nat
  exponent : Int
  deriving DecidableEq

namespace Decimal

/-- Moves trailing zeros of the digits to the exponent, at most `n` of them. -/
def dropZeros : Nat → Decimal → Decimal
  | 0,     d => d
  | n + 1, d =>
    if d.digits ≠ 0 ∧ d.digits % 10 = 0 then dropZeros n ⟨d.digits / 10, d.exponent + 1⟩ else d

end Decimal

namespace Double

/-- The interval of the reals that round to a positive double, as numerators over one denominator:
its lower end, the double, its upper end, and whether the ends belong to it. -/
structure Rounding where
  low : Nat
  value : Nat
  high : Nat
  den : Nat
  closed : Bool

/-- The gap below a power of two is half the gap above it, so there the lower end is nearer. -/
def rounding (d : Double) : Rounding :=
  let m := d.significand
  let up := twoTo d.exponent.toNat
  let below := if m = twoTo 52 ∧ d.exponent ≠ -1074 then 1 else 2
  { low := (4 * m - below) * up
    value := 4 * m * up
    high := (4 * m + 2) * up
    den := 4 * twoTo (-d.exponent).toNat
    closed := m % 2 == 0 }

/-- Whether `c · 10^g` lies in the interval. -/
def Rounding.holds (r : Rounding) (c : Nat) (g : Int) : Bool :=
  let x := c * tenTo g.toNat * r.den
  let s := tenTo (-g).toNat
  if r.closed then r.low * s ≤ x && x ≤ r.high * s else r.low * s < x && x < r.high * s

/-- The point of the grid of `10^g` that lies in the interval, the nearer one where two do, and the
even one of two that are equally near. -/
def Rounding.point? (r : Rounding) (g : Int) : Option Nat :=
  let num := r.value * tenTo (-g).toNat
  let den := r.den * tenTo g.toNat
  let below := num / den
  let near := roundRatio num den
  let far := if near = below then below + 1 else below
  if r.holds near g then some near
  else if r.holds far g then some far
  else none

/-- The exponent of the first digit of the decimal expansion of `num / den`, for a positive one. -/
def decimalExponent (num den : Nat) : Int :=
  if den ≤ num then (digitCount (num / den) : Int) - 1 else -(digitCount ((den - 1) / num) : Int)

/-- The decimal with the fewest digits that rounds to the magnitude of a double, and of those the
one nearest to it. -/
def shortest (d : Double) : Decimal :=
  if d.isZero then ⟨0, 0⟩
  else
    let r := d.rounding
    let top := decimalExponent r.value r.den
    let found := (List.range 18).findSome? fun (n : Nat) =>
      (r.point? (top - n)).map fun c => Decimal.mk c (top - n)
    (found.getD ⟨d.significand, 0⟩).dropZeros 18

end Double

end ApiAssembly
