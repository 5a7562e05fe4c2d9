import ApiAssembly.Text.Unprintable
import ApiAssembly.Json.Printer

/-!
# Text — Shown — texts as messages show them

A message shows a text between double quotes. A quote and a backslash are escaped, line feed,
carriage return, tab and the null character have short escapes, and every other character that is
not seen on its own stands as its code between braces.
-/

namespace ApiAssembly

/-- The lower-case hexadecimal digits of a number. -/
def hexChars (n : Nat) : List Char := Nat.toDigits 16 n

/-- What stands for a character in a shown text. -/
def shownChar (c : Char) : List Char :=
  if c = '"' then ['\\', '"']
  else if c = '\\' then ['\\', '\\']
  else if c = '\n' then ['\\', 'n']
  else if c = '\r' then ['\\', 'r']
  else if c = '\t' then ['\\', 't']
  else if c.toNat = 0 then ['\\', '0']
  else if isUnprintable c then ['\\', 'u', '{'] ++ hexChars c.toNat ++ ['}']
  else [c]

/-- A text between quotes, with every character in view. -/
def shown (s : String) : String := String.ofList ('"' :: s.toList.flatMap shownChar ++ ['"'])

end ApiAssembly
