/-!
# Text — Base64 — bytes as text

Four characters stand for three bytes; the last group may stand for one or two, filled up with equal
signs, and the bits that it does not need are zero. `Base64.decodeText?` reads the bytes as UTF-8.
-/

namespace ApiAssembly

namespace Base64

/-- The six bits of a character. -/
def sextet? (c : Char) : Option Nat :=
  if 'A' ≤ c ∧ c ≤ 'Z' then some (c.toNat - 'A'.toNat)
  else if 'a' ≤ c ∧ c ≤ 'z' then some (c.toNat - 'a'.toNat + 26)
  else if '0' ≤ c ∧ c ≤ '9' then some (c.toNat - '0'.toNat + 52)
  else if c = '+' then some 62
  else if c = '/' then some 63
  else none

/-- The bytes that groups of four characters stand for. -/
def decode? : List Char → Option (List UInt8)
  | []                    => some []
  | [a, b, '=', '=']      => do
    let a ← sextet? a
    let b ← sextet? b
    if b % 16 = 0 then some [UInt8.ofNat (a * 4 + b / 16)] else none
  | [a, b, c, '=']        => do
    let a ← sextet? a
    let b ← sextet? b
    let c ← sextet? c
    if c % 4 = 0 then some [UInt8.ofNat (a * 4 + b / 16), UInt8.ofNat (b % 16 * 16 + c / 4)]
    else none
  | a :: b :: c :: d :: r => do
    let a ← sextet? a
    let b ← sextet? b
    let c ← sextet? c
    let d ← sextet? d
    let bytes ← decode? r
    some (UInt8.ofNat (a * 4 + b / 16) :: UInt8.ofNat (b % 16 * 16 + c / 4) ::
      UInt8.ofNat (c % 4 * 64 + d) :: bytes)
  | _                     => none

/-- The text whose bytes are written in a text; blanks of ASCII between the characters do not
count. -/
def decodeText? (cs : List Char) : Option (List Char) :=
  (decode? (cs.filter fun c => !(c.isWhitespace || c == '\x0c'))).bind fun bytes =>
    (String.fromUTF8? bytes.toByteArray).map String.toList

end Base64

end ApiAssembly
