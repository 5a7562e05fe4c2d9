import ApiAssembly.Text.Alphanumeric
import ApiAssembly.Text.Basic
import ApiAssembly.Text.Case

/-!
# Naming — Words — names cut into words

A name is written with a separator between its words. A character that is neither letter nor digit
ends a word and is dropped, and so does a capital, a digit or a character outside ASCII after the
start of a word, when a lower-case character is beside it. "Beside" goes by the number of bytes in
front of the character, which is its position only as long as the name is ASCII. Case is ASCII case.
-/

namespace ApiAssembly

/-- The case that letters get. -/
inductive LetterCase where
  | lower | upper

def LetterCase.apply : LetterCase → Char → Char
  | .lower, c => c.toLower
  | .upper, c => c.toUpper

/-- Whether the character at a position is lower case; one that is absent is not. -/
def lowercaseAt (name : List Char) (i : Nat) : Bool :=
  match name[i]? with
  | some c => isLowercase c
  | none   => false

/-- Whether a character inside a word begins a new one; `i` is the number of bytes before it. -/
def beginsWord (name : List Char) (i : Nat) (c : Char) : Bool :=
  c.toUpper == c && (lowercaseAt name (i + 1) || lowercaseAt name (i - 1))

/-- Writes the rest of a name; `atStart` says that no character of the current word was written. -/
def separateFrom (sep : Char) (letters : LetterCase) (name : List Char) :
    Bool → Nat → List Char → List Char
  | _,       _, []      => []
  | atStart, i, c :: cs =>
    let next := i + c.utf8Size
    if !isAlphanumeric c then
      if atStart then separateFrom sep letters name true next cs
      else sep :: separateFrom sep letters name true next cs
    else if !atStart && beginsWord name i c then
      sep :: letters.apply c :: separateFrom sep letters name false next cs
    else letters.apply c :: separateFrom sep letters name false next cs

/-- The words of a name with a separator between them. -/
def separateWords (sep : Char) (letters : LetterCase) (name : List Char) : List Char :=
  separateFrom sep letters name true 0 (Text.dropEndWhile (fun c => !isAlphanumeric c) name)

end ApiAssembly
