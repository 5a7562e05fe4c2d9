import ApiAssembly.Json.Printer
import ApiAssembly.Yaml.Scalar

/-!
# Yaml — Printer — values in block style

Every entry of an object and every item of an array stands on a line of its own, two spaces deeper
than what it belongs to; the first entry of an object that is an item stands behind its dash. A text
is plain where that cannot be taken for anything else, and between double quotes where it can; a
text of several lines that would be plain as one line is a literal block, whose lines are indented
two spaces where it is an item. Three texts of one character stand between single quotes. The
escapes of a key are fewer than those of a text.

The text is a list of lines, each ended by a line feed: `block depth text j` begins in the column of
the depth, where its first line is already indented.
-/

namespace ApiAssembly

namespace Yaml

/-! ### Plain texts -/

/-- Whether a plain text cannot begin with a character. -/
def isIndicator (c : Char) : Bool := "-?:[]\x7b\x7d#&*!|>\x27\"%@`".toList.contains c

/-- The control characters of ASCII and of the block after it. -/
def isControl (c : Char) : Bool := c.toNat < 32 || (127 ≤ c.toNat && c.toNat < 160)

/-- Whether a text begins with a character that a plain text cannot begin with. -/
def beginsBadly (cs : List Char) : Bool :=
  match cs.head? with
  | some c => isIndicator c || c == ' '
  | none   => true

/-- Whether a text is a spelling of no number or of an infinity, which may follow a sign and a
point. -/
def isSpecialNumber (cs : List Char) : Bool :=
  match asciiLower (splitSign cs).2 with
  | "nan"  => true
  | ".nan" => true
  | "inf"  => true
  | ".inf" => true
  | _      => false

/-- Whether a text is an integer of 64 bits with a sign; digits behind two zeros are octal. -/
def isSigned64 (cs : List Char) : Bool :=
  match (splitSign cs).2 with
  | '0' :: '0' :: ds => (natural? 8 ds).isSome
  | _                => (integer? cs).any fun i => i < (twoTo 63 : Int)

/-- Whether a number can begin with a character. -/
def beginsNumber (c : Char) : Bool := (digit? c).isSome || c == '+' || c == '-' || c == '.'

/-- Whether a text would be read as a number; blanks around it do not count. -/
def readsAsNumber (cs : List Char) : Bool :=
  isSpecialNumber cs ||
    (cs.head?.any beginsNumber && (isSigned64 (Text.trim cs) || (double? (Text.trim cs)).isSome))

/-- Whether a text ends in a colon, but for blanks. -/
def endsInColon (cs : List Char) : Bool := (Text.trimEnd cs).getLast? == some ':'

/-- Whether a value is written without quotes. -/
def isPlainValue (cs : List Char) : Bool :=
  !isNull cs && !readsAsNumber cs && (flag? (Text.trim cs)).isNone && !beginsBadly cs &&
    !Text.occurs [':', ' '] cs && !endsInColon cs &&
    !cs.any fun c => ",[]\x7b\x7d#".toList.contains c || isControl c

/-- Whether a key is written without quotes. -/
def isPlainKey (cs : List Char) : Bool :=
  !isNull cs && !(["true", "false"].contains (asciiLower cs)) && !beginsBadly cs &&
    !cs.any fun c => ":#,".toList.contains c || isControl c

/-! ### Quoted texts -/

/-- The hexadecimal digit of a number below sixteen, in upper case. -/
def upperHexDigit (n : Nat) : Char := (hexDigit n).toUpper

/-- What stands for a character between double quotes. -/
def escapeChar (c : Char) : List Char :=
  match c.toNat with
  | 0x5C   => ['\\', '\\']
  | 0x22   => ['\\', '"']
  | 0x00   => ['\\', '0']
  | 0x07   => ['\\', 'a']
  | 0x08   => ['\\', 'b']
  | 0x09   => ['\\', 't']
  | 0x0A   => ['\\', 'n']
  | 0x0B   => ['\\', 'v']
  | 0x0C   => ['\\', 'f']
  | 0x0D   => ['\\', 'r']
  | 0x1B   => ['\\', 'e']
  | 0x85   => ['\\', 'N']
  | 0x2028 => ['\\', 'L']
  | 0x2029 => ['\\', 'P']
  | 0xFEFF => "\\uFEFF".toList
  | n      =>
    if isControl c then ['\\', 'x', upperHexDigit (n / 16), upperHexDigit (n % 16)] else [c]

/-- What stands for a character of a key between double quotes. -/
def escapeKeyChar (c : Char) : List Char :=
  if ['\\', '"', '\n', '\r', '\t'].contains c then escapeChar c
  else if isControl c then
    ['\\', 'u', '0', '0', upperHexDigit (c.toNat / 16), upperHexDigit (c.toNat % 16)]
  else [c]

/-- A text between double quotes. -/
def quote (escape : Char → List Char) (cs : List Char) : List Char :=
  '"' :: cs.flatMap escape ++ ['"']

/-- The texts that stand between single quotes. -/
def isSinglyQuoted (cs : List Char) : Bool := cs == ['.'] || cs == ['#'] || cs == ['-']

/-- A key of an object. -/
def keyChars (cs : List Char) : List Char := if isPlainKey cs then cs else quote escapeKeyChar cs

/-! ### Literal blocks -/

def isLineFeed (c : Char) : Bool := c == '\n'

/-- The text without the line feeds at its end. -/
def body (cs : List Char) : List Char := Text.dropEndWhile isLineFeed cs

/-- The number of line feeds at the end of a text. -/
def feedsAtEnd (cs : List Char) : Nat := cs.length - (body cs).length

/-- Whether a text is written line by line. -/
def isLiteral (cs : List Char) : Bool :=
  cs.any isLineFeed && isPlainValue ((body cs).map fun c => if isLineFeed c then ' ' else c)

/-- The blanks in front of a line. -/
def indent (depth : Nat) : List Char := List.replicate (2 * depth) ' '

/-- The head of a literal block, which tells how many line feeds end it: none, one or more. -/
def literalHead : Nat → List Char
  | 0     => ['|', '-']
  | 1     => ['|']
  | _ + 2 => ['|', '+']

/-- A literal block with its lines at a depth. -/
def literal (depth : Nat) (cs : List Char) : List Char :=
  let lines := Text.splitAll isLineFeed (body cs) ++ List.replicate (feedsAtEnd cs - 1) []
  literalHead (feedsAtEnd cs) ++ '\n' :: lines.flatMap fun line => indent depth ++ line ++ ['\n']

/-- A text as a value; the lines of a literal block are at the depth. -/
def textChars (depth : Nat) (cs : List Char) : List Char :=
  if isSinglyQuoted cs then '\x27' :: cs ++ ['\x27', '\n']
  else if isLiteral cs then literal depth cs
  else if isPlainValue cs then cs ++ ['\n']
  else quote escapeChar cs ++ ['\n']

/-! ### Values -/

/-- A number; its exponent has no plus sign. -/
def numberChars (n : Number) : List Char := n.chars.filter (· != '+')

/-- Whether a value has lines of its own. -/
def opensBlock : Json → Bool
  | .arr items  => !items.isEmpty
  | .obj fields => !fields.isEmpty
  | _           => false

/-- What stands between the colon of a key and its value, which is at a depth. -/
def gap (depth : Nat) (j : Json) : List Char := if opensBlock j then '\n' :: indent depth else [' ']

mutual

/-- The lines of a value at a depth, the first one without its blanks; the lines of a literal
block are at the depth `text`. -/
def block (depth text : Nat) : Json → List Char
  | .arr []            => "[]\n".toList
  | .obj []            => ['{', '}', '\n']
  | .arr (x :: items)  => itemLines depth (x :: items)
  | .obj (f :: fields) => entryLines depth (f :: fields)
  | .null              => "null\n".toList
  | .bool true         => "true\n".toList
  | .bool false        => "false\n".toList
  | .num n             => numberChars n ++ ['\n']
  | .str s             => textChars text s.toList

/-- The lines of items at a depth, the first one without its blanks. -/
def itemLines (depth : Nat) : List Json → List Char
  | []          => []
  | [x]         => '-' :: ' ' :: block (depth + 1) 1 x
  | x :: y :: r => '-' :: ' ' :: block (depth + 1) 1 x ++ indent depth ++ itemLines depth (y :: r)

/-- The lines of entries at a depth, the first one without its blanks. -/
def entryLines (depth : Nat) : List (String × Json) → List Char
  | []               => []
  | [(k, x)]         =>
    keyChars k.toList ++ ':' :: gap (depth + 1) x ++ block (depth + 1) (depth + 1) x
  | (k, x) :: y :: r =>
    keyChars k.toList ++ ':' :: gap (depth + 1) x ++ block (depth + 1) (depth + 1) x ++
      indent depth ++ entryLines depth (y :: r)

end

/-- The text of a value. -/
def print (j : Json) : String := String.ofList (block 0 0 j)

end Yaml

end ApiAssembly
