import ApiAssembly.Json.Basic

/-!
# Json — Printer

The compact text of a value has no blanks; the indented text puts every item and entry on a line of
its own, two spaces deeper than its parent, and leaves empty arrays and objects closed. A string
stands between quotes: a quote and a backslash are escaped, the control characters below U+0020
are written by their short escape or by their code, and every other character stands for itself.

Both texts are lists of characters, which is where the containment of one text in another is read.
-/

namespace ApiAssembly

/-- The hexadecimal digit of a number below sixteen, in lower case. -/
def hexDigit (n : Nat) : Char :=
  if n < 10 then Char.ofNat ('0'.toNat + n) else Char.ofNat ('a'.toNat + (n - 10))

namespace Json

/-- What stands for a character between quotes. -/
def escapeChar (c : Char) : List Char :=
  if c = '"' then ['\\', '"']
  else if c = '\\' then ['\\', '\\']
  else if c = '\n' then ['\\', 'n']
  else if c = '\r' then ['\\', 'r']
  else if c = '\t' then ['\\', 't']
  else if c.toNat = 8 then ['\\', 'b']
  else if c.toNat = 12 then ['\\', 'f']
  else if c.toNat < 32 then
    ['\\', 'u', '0', '0', hexDigit (c.toNat / 16), hexDigit (c.toNat % 16)]
  else [c]

/-- A string in quotes. -/
def quote (s : String) : List Char := '"' :: s.toList.flatMap escapeChar ++ ['"']

mutual

/-- The compact text. -/
def chars : Json → List Char
  | .null       => "null".toList
  | .bool true  => "true".toList
  | .bool false => "false".toList
  | .num n      => n.chars
  | .str s      => quote s
  | .arr items  => '[' :: itemChars items ++ [']']
  | .obj fields => '{' :: fieldChars fields ++ ['}']

/-- The items, with commas between them. -/
def itemChars : List Json → List Char
  | []          => []
  | [x]         => x.chars
  | x :: y :: r => x.chars ++ ',' :: itemChars (y :: r)

/-- The entries, with commas between them. -/
def fieldChars : List (String × Json) → List Char
  | []               => []
  | [(k, x)]         => quote k ++ ':' :: x.chars
  | (k, x) :: y :: r => quote k ++ ':' :: x.chars ++ ',' :: fieldChars (y :: r)

end

/-- A new line at a depth. -/
def newLine (depth : Nat) : List Char := '\n' :: List.replicate (2 * depth) ' '

mutual

/-- The indented text of a value that stands at a depth. -/
def indentedChars (depth : Nat) : Json → List Char
  | .arr []             => ['[', ']']
  | .obj []             => ['{', '}']
  | .arr (x :: items)   =>
    '[' :: indentedItems (depth + 1) (x :: items) ++ newLine depth ++ [']']
  | .obj (f :: fields)  =>
    '{' :: indentedFields (depth + 1) (f :: fields) ++ newLine depth ++ ['}']
  | .null               => "null".toList
  | .bool true          => "true".toList
  | .bool false         => "false".toList
  | .num n              => n.chars
  | .str s              => quote s

/-- The items, each on its own line. -/
def indentedItems (depth : Nat) : List Json → List Char
  | []          => []
  | [x]         => newLine depth ++ x.indentedChars depth
  | x :: y :: r => newLine depth ++ x.indentedChars depth ++ ',' :: indentedItems depth (y :: r)

/-- The entries, each on its own line. -/
def indentedFields (depth : Nat) : List (String × Json) → List Char
  | []               => []
  | [(k, x)]         => newLine depth ++ quote k ++ ':' :: ' ' :: x.indentedChars depth
  | (k, x) :: y :: r =>
    newLine depth ++ quote k ++ ':' :: ' ' :: x.indentedChars depth ++
      ',' :: indentedFields depth (y :: r)

end

/-- The text without blanks. -/
def compact (j : Json) : String := String.ofList j.chars

/-- The text with one item or entry a line; no line feed ends it. -/
def indented (j : Json) : String := String.ofList (j.indentedChars 0)

end Json

end ApiAssembly
