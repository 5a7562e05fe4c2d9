import ApiAssembly.Json.Basic
import ApiAssembly.Number.Numeral
import ApiAssembly.Text.Base64
import ApiAssembly.Text.Basic

/-!
# Yaml — Scalar — what scalars stand for

A plain scalar is tried as a null, a boolean, an integer of 64 bits, a double and at last a text.
Integers may have a sign, leading zeros, underscores among the digits, and the bases of `0x`, `0o`
and `0b`. The doubles without a finite value stand for the texts `.inf`, `-.inf` and `.nan`. All
other scalars are texts; a tag may make any scalar a null or a text, and one that asks for another
kind of value fits none.
-/

namespace ApiAssembly

namespace Yaml

/-- A text in lower case, for ASCII letters. -/
def asciiLower (cs : List Char) : String := String.ofList (cs.map Char.toLower)

def isNull (cs : List Char) : Bool := ["", "~", "null"].contains (asciiLower cs)

/-- The boolean that a word stands for. -/
def flag? (cs : List Char) : Option Bool :=
  let w := asciiLower cs
  if ["y", "yes", "true", "on"].contains w then some true
  else if ["n", "no", "false", "off"].contains w then some false
  else none

/-- The value of a digit in bases up to sixteen. -/
def digitIn? (base : Nat) (c : Char) : Option Nat :=
  let v :=
    if '0' ≤ c ∧ c ≤ '9' then some (c.toNat - '0'.toNat)
    else if 'a' ≤ c ∧ c ≤ 'f' then some (c.toNat - 'a'.toNat + 10)
    else if 'A' ≤ c ∧ c ≤ 'F' then some (c.toNat - 'A'.toNat + 10)
    else none
  v.filter (· < base)

/-- The number behind some digits; underscores stand for nothing. -/
def digitsFrom? (base : Nat) (value : Nat) : List Char → Option Nat
  | []      => some value
  | c :: cs =>
    if c == '_' then digitsFrom? base value cs
    else (digitIn? base c).bind fun d => digitsFrom? base (value * base + d) cs

/-- The number of digits in a base, of which there has to be one. -/
def natural? (base : Nat) (cs : List Char) : Option Nat :=
  if cs.all (· == '_') then none else digitsFrom? base 0 cs

/-- The sign of a number and the rest of it. -/
def splitSign : List Char → Bool × List Char
  | '-' :: cs => (true, cs)
  | '+' :: cs => (false, cs)
  | cs        => (false, cs)

/-- The magnitude of an integer in the base that it announces. -/
def magnitude? : List Char → Option Nat
  | '0' :: 'x' :: cs => natural? 16 cs
  | '0' :: 'X' :: cs => natural? 16 cs
  | '0' :: 'o' :: cs => natural? 8 cs
  | '0' :: 'O' :: cs => natural? 8 cs
  | '0' :: 'b' :: cs => natural? 2 cs
  | '0' :: 'B' :: cs => natural? 2 cs
  | cs               => natural? 10 cs

/-- The integer of 64 bits, signed or unsigned, that a text writes. -/
def integer? (cs : List Char) : Option Int :=
  let (negative, digits) := splitSign cs
  match magnitude? digits with
  | none   => none
  | some n =>
    if negative then if n ≤ twoTo 63 then some (-(n : Int)) else none
    else if n < twoTo 64 then some n else none

/-- A double that a text writes: a finite one, an infinity by its sign, or no number. -/
inductive DoubleText where
  | finite (d : Double)
  | infinite (negative : Bool)
  | notANumber

/-- The decimal digits at the start of a text, and the rest. -/
def takeDigits (cs : List Char) : List Nat × List Char :=
  ((cs.takeWhile fun c => (digit? c).isSome).filterMap digit?,
    cs.dropWhile fun c => (digit? c).isSome)

/-- The power of ten at the end of a decimal. -/
def power? : List Char → Option Int
  | []      => some 0
  | c :: cs =>
    if c = 'e' ∨ c = 'E' then
      let (negative, rest) := splitSign cs
      match takeDigits rest with
      | ([], _)  => none
      | (ds, []) => some (if negative then -(natOfDigits ds : Int) else natOfDigits ds)
      | _        => none
    else none

/-- The double nearest to `digits · 10^e`; powers that leave no doubt are not computed. -/
def nearestDouble (negative : Bool) (digits : List Nat) (e : Int) : DoubleText :=
  let n := natOfDigits digits
  if n = 0 then .finite (Double.zero negative)
  else
    let top := e + digitCount n
    if 400 < top then .infinite negative
    else if top < -400 then .finite (Double.zero negative)
    else match Double.ofRatio? negative (n * tenTo e.toNat) (tenTo (-e).toNat) with
      | some d => .finite d
      | none   => .infinite negative

/-- The double that a text writes. -/
def double? (cs : List Char) : Option DoubleText :=
  let (negative, body) := splitSign cs
  let w := asciiLower body
  if ["nan", ".nan"].contains w then some .notANumber
  else if ["inf", "infinity", ".inf"].contains w then some (.infinite negative)
  else
    let (whole, rest) := takeDigits body
    let (fraction, rest) :=
      match rest with
      | '.' :: rest => takeDigits rest
      | rest        => ([], rest)
    if whole.isEmpty && fraction.isEmpty then none
    else (power? rest).map fun e => nearestDouble negative (whole ++ fraction) (e - fraction.length)

/-- What a tag says about a scalar. -/
inductive TagKind where
  /-- There is no tag. -/
  | absent
  | null | text | binary
  /-- It is a value, but no text. -/
  | value
  /-- It is no value that has to be found out. -/
  | unspecific
  | unknown
  deriving DecidableEq

/-- What a whole tag says. -/
def tagKind : Option String → TagKind
  | none                            => .absent
  | some "!"                        => .unspecific
  | some "tag:yaml.org,2002:null"   => .null
  | some "tag:yaml.org,2002:str"    => .text
  | some "tag:yaml.org,2002:binary" => .binary
  | some "tag:yaml.org,2002:bool"   => .value
  | some "tag:yaml.org,2002:int"    => .value
  | some "tag:yaml.org,2002:float"  => .value
  | some "tag:yaml.org,2002:seq"    => .value
  | some "tag:yaml.org,2002:map"    => .value
  | some _                          => .unknown

/-- The text that a scalar stands for where a text is wanted. -/
def scalarText? (kind : TagKind) (cs : List Char) : Option String :=
  match kind with
  | .value  => none
  | .binary => (Base64.decodeText? cs).map String.ofList
  | _       => some (String.ofList cs)

/-- The value of a plain scalar. Blanks around it do not count, but where it is a null or a text. -/
def plainValue (cs : List Char) : Json :=
  let word := Text.trim cs
  if isNull cs then .null
  else match flag? word with
    | some b => .bool b
    | none   =>
      match integer? word with
      | some i => .num (.int i)
      | none   =>
        match double? word with
        | some (.finite d)       => .num (.float d)
        | some (.infinite false) => .str ".inf"
        | some (.infinite true)  => .str "-.inf"
        | some .notANumber       => .str ".nan"
        | none                   => .str (String.ofList cs)

/-- The value of a scalar. Also a plain one with the tag of a text is what it looks like. -/
def scalarValue? (plain : Bool) (tag : Option String) (cs : List Char) : Option Json :=
  match tagKind tag with
  | .null => some .null
  | kind  =>
    if plain && [.absent, .text, .unknown].contains kind then some (plainValue cs)
    else (scalarText? kind cs).map .str

end Yaml

end ApiAssembly
