import ApiAssembly.Number.Shortest

/-!
# Number — Text — how numbers are written

A number is an integer or a double. An integer is written in its digits. A double is written with
the fewest digits that read back: positionally, with at least one digit on either side of the
point, while the exponent of its first digit lies between -5 and 15, and with a signed exponent
otherwise.
-/

namespace ApiAssembly

/-- A number of a document: the two kinds are never equal. -/
inductive Number where
  | int (value : Int)
  | float (value : Double)
  deriving DecidableEq

/-- The decimal digits of a natural number. -/
def digitChars (n : Nat) : List Char := Nat.toDigits 10 n

def intChars : Int → List Char
  | .ofNat n   => digitChars n
  | .negSucc n => '-' :: digitChars (n + 1)

/-- Which exponents of the first digit are written positionally. -/
def positional (e : Int) : Bool := -5 ≤ e && e ≤ 15

/-- The digits with the point where the exponent of the first digit puts it. -/
def positionalChars (digits : List Char) (e : Int) : List Char :=
  if e < 0 then '0' :: '.' :: List.replicate (-e - 1).toNat '0' ++ digits
  else
    let whole := e.toNat + 1
    let tail := digits.drop whole
    digits.take whole ++ List.replicate (whole - digits.length) '0' ++
      '.' :: (if tail.isEmpty then ['0'] else tail)

/-- The digits with a point after the first, and the exponent with its sign. -/
def exponentChars (digits : List Char) (e : Int) : List Char :=
  digits.take 1 ++ (if digits.length ≤ 1 then [] else '.' :: digits.drop 1) ++
    'e' :: (if e < 0 then intChars e else '+' :: intChars e)

namespace Double

/-- The text of the magnitude. -/
def magnitudeChars (d : Double) : List Char :=
  let s := d.shortest
  let digits := digitChars s.digits
  let e := s.exponent + (digits.length - 1 : Nat)
  if positional e then positionalChars digits e else exponentChars digits e

def chars (d : Double) : List Char :=
  if d.negative then '-' :: d.magnitudeChars else d.magnitudeChars

end Double

namespace Number

def chars : Number → List Char
  | .int i   => intChars i
  | .float d => d.chars

/-- Equality of numbers: an integer never equals a double, and zero has no sign. -/
def same : Number → Number → Bool
  | .int a,   .int b   => a == b
  | .float a, .float b => a.same b
  | _,        _        => false

end Number

end ApiAssembly
