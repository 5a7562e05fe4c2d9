import ApiAssembly.Number.Text

/-!
# Number — Numeral — the numbers of a JSON text

A numeral is read one character at a time: a sign, digits without a leading zero, a fraction and a
power of ten. Its value is an integer while it has neither fraction nor power and fits 64 bits, and
minus zero aside. Every other numeral is a double: the leading digits that fit 64 bits are made a
double and scaled by one power of ten, each step rounded to the nearest double. A numeral too large
for a double has no value.
-/

namespace ApiAssembly

/-- Where in a numeral the reader stands. -/
inductive NumeralPlace where
  | sign | zero | whole | point | fraction | mark | markSign | power
  deriving DecidableEq

/-- A numeral as far as it has been read; digits are in reverse order. -/
structure Numeral where
  place : NumeralPlace
  negative : Bool := false
  whole : List Nat := []
  fraction : List Nat := []
  powerNegative : Bool := false
  power : List Nat := []

/-- What a character does to a numeral. -/
inductive NumeralStep where
  | more (n : Numeral)
  | ended
  | bad

/-- The value of a decimal digit. -/
def digit? (c : Char) : Option Nat :=
  if '0' ≤ c ∧ c ≤ '9' then some (c.toNat - '0'.toNat) else none

/-- The number that a list of digits writes. -/
def natOfDigits (ds : List Nat) : Nat := ds.foldl (fun n d => n * 10 + d) 0

namespace Numeral

/-- The numeral that a first character begins. -/
def start? (c : Char) : Option Numeral :=
  if c = '-' then some { place := .sign, negative := true }
  else match digit? c with
    | some 0 => some { place := .zero, whole := [0] }
    | some d => some { place := .whole, whole := [d] }
    | none   => none

/-- After the digits of the whole part: a point, a power or the end. -/
def afterWhole (n : Numeral) (c : Char) : NumeralStep :=
  if c = '.' then .more { n with place := .point }
  else if c = 'e' ∨ c = 'E' then .more { n with place := .mark }
  else .ended

/-- Reads one more character. -/
def step (n : Numeral) (c : Char) : NumeralStep :=
  match n.place, digit? c with
  | .sign,     some 0 => .more { n with place := .zero, whole := [0] }
  | .sign,     some d => .more { n with place := .whole, whole := [d] }
  | .sign,     none   => .bad
  | .zero,     some _ => .bad
  | .zero,     none   => n.afterWhole c
  | .whole,    some d => .more { n with whole := d :: n.whole }
  | .whole,    none   => n.afterWhole c
  | .point,    some d => .more { n with place := .fraction, fraction := [d] }
  | .point,    none   => .bad
  | .fraction, some d => .more { n with fraction := d :: n.fraction }
  | .fraction, none   => if c = 'e' ∨ c = 'E' then .more { n with place := .mark } else .ended
  | .mark,     some d => .more { n with place := .power, power := [d] }
  | .mark,     none   =>
    if c = '+' then .more { n with place := .markSign }
    else if c = '-' then .more { n with place := .markSign, powerNegative := true }
    else .bad
  | .markSign, some d => .more { n with place := .power, power := [d] }
  | .markSign, none   => .bad
  | .power,    some d => .more { n with power := d :: n.power }
  | .power,    none   => .ended

/-- Whether the characters read so far are a numeral. -/
def complete (n : Numeral) : Bool :=
  match n.place with
  | .zero | .whole | .fraction | .power => true
  | .sign | .point | .mark | .markSign  => false

/-- Whether the numeral has neither fraction nor power. -/
def isWhole (n : Numeral) : Bool := n.fraction.isEmpty && n.power.isEmpty

end Numeral

/-- Takes digits into a significand while it fits 64 bits; the digits left over come second. -/
def absorbDigits : Nat → List Nat → Nat × List Nat
  | s, []      => (s, [])
  | s, d :: ds => if s * 10 + d < twoTo 64 then absorbDigits (s * 10 + d) ds else (s, d :: ds)

namespace Double

/-- A natural number, made a double, times `10^e`, each step rounded. -/
def scaled? (s : Nat) (e : Int) : Option Double := do
  let f ← ofNat? s
  if s = 0 then some f
  else if 0 ≤ e then
    if e ≤ 308 then (← powerOfTen? e.toNat).times? f else none
  else
    let k := (-e).toNat
    if k ≤ 308 then f.over? (← powerOfTen? k)
    else if k ≤ 616 then (← f.over? (← powerOfTen? 308)).over? (← powerOfTen? (k - 308))
    else some (zero false)

end Double

namespace Numeral

/-- The value of a numeral, none where it is too large for a double. -/
def number? (n : Numeral) : Option Number :=
  let (s, extra) := absorbDigits 0 n.whole.reverse
  if n.isWhole && extra.isEmpty && (!n.negative || (0 < s && s ≤ twoTo 63)) then
    some (.int (if n.negative then -s else s))
  else
    let (s, left) := absorbDigits s n.fraction.reverse
    let power : Int := natOfDigits n.power.reverse
    let e : Int :=
      extra.length - (n.fraction.length - left.length : Nat) +
        (if n.powerNegative then -power else power)
    (Double.scaled? s e).map fun d => .float (if n.negative then d.negate else d)

end Numeral

end ApiAssembly
