/-!
# Number — Double — the finite numbers of binary64

A finite double is a sign and a *code*: the codes below `2047 · 2^52` are the magnitudes in
increasing order, 52 bits of fraction under 11 bits of exponent, so that the next double up has the
next code. `Double.significand` and `Double.exponent` give the magnitude as `m · 2^q`.

Everything is rounded once, to the nearest double and to the even code of two that are equally
near (`Double.ofRatio?`); a magnitude too large for a finite double has none.
-/

namespace ApiAssembly

/-- A power of two. -/
abbrev twoTo (k : Nat) : Nat := Nat.pow 2 k

/-- A power of ten. -/
abbrev tenTo (k : Nat) : Nat := Nat.pow 10 k

/-- The natural number nearest to `num / den`, the even one of two that are equally near. -/
def roundRatio (num den : Nat) : Nat :=
  let whole := num / den
  let twice := 2 * (num % den)
  if twice < den then whole
  else if den < twice then whole + 1
  else whole + whole % 2

/-- A finite binary64 number. -/
structure Double where
  negative : Bool
  code : Nat
  finite : code < 2047 * twoTo 52
  deriving DecidableEq

namespace Double

/-- Zero of the given sign. -/
def zero (negative : Bool) : Double := ⟨negative, 0, by decide⟩

instance : Inhabited Double := ⟨zero false⟩

def isZero (d : Double) : Bool := d.code == 0

def negate (d : Double) : Double := { d with negative := !d.negative }

/-- The magnitude is `significand · 2^exponent`. -/
def significand (d : Double) : Nat :=
  if d.code < twoTo 52 then d.code else twoTo 52 + d.code % twoTo 52

/-- The power of two that the significand counts. -/
def exponent (d : Double) : Int := (max (d.code / twoTo 52) 1 : Nat) - 1075

/-- The magnitude as a ratio of natural numbers. -/
def ratio (d : Double) : Nat × Nat :=
  if 0 ≤ d.exponent then (d.significand * twoTo d.exponent.toNat, 1)
  else (d.significand, twoTo (-d.exponent).toNat)

/-- The two operands of a comparison are equal numbers: zeros of both signs are one number. -/
def same (a b : Double) : Bool := a.code == b.code && (a.negative == b.negative || a.code == 0)

/-- The power of two in which `num / den` has 53 significant bits, or the smallest one. -/
def scaleOf (num den : Nat) : Int :=
  let guess := (Nat.log2 num : Int) - Nat.log2 den - 52
  let short := num * twoTo (-guess).toNat < den * twoTo guess.toNat * twoTo 52
  max (if short then guess - 1 else guess) (-1074)

/-- The code of the double nearest to `num / den`, which may lie beyond the finite ones. -/
def nearestCode (num den : Nat) : Nat :=
  if num = 0 then 0
  else
    let q := scaleOf num den
    (q + 1074).toNat * twoTo 52 + roundRatio (num * twoTo (-q).toNat) (den * twoTo q.toNat)

/-- The double nearest to `± num / den`, none where the magnitude is too large. -/
def ofRatio? (negative : Bool) (num den : Nat) : Option Double :=
  if h : nearestCode num den < 2047 * twoTo 52 then some ⟨negative, nearestCode num den, h⟩
  else none

/-- The nearest double to a natural number. -/
def ofNat? (n : Nat) : Option Double := ofRatio? false n 1

/-- The nearest double to the product of the magnitudes. -/
def times? (a b : Double) : Option Double :=
  ofRatio? (a.negative != b.negative) (a.ratio.1 * b.ratio.1) (a.ratio.2 * b.ratio.2)

/-- The nearest double to the quotient of the magnitudes. -/
def over? (a b : Double) : Option Double :=
  ofRatio? (a.negative != b.negative) (a.ratio.1 * b.ratio.2) (a.ratio.2 * b.ratio.1)

/-- The nearest double to `10 ^ k`. -/
def powerOfTen? (k : Nat) : Option Double := ofRatio? false (tenTo k) 1

end Double

end ApiAssembly
