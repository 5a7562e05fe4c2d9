import ApiAssembly.Keyed
import ApiAssembly.Text.Basic

/-!
# Config — Settings — the values of settings

A flag is off when its text is `false` in any case, on for any other text, and at its default when
the text is blank. A list is what stands between commas, without blanks at the ends of its items
and without blank items.
-/

namespace ApiAssembly

/-- Reads a flag. -/
def parseFlag (value : String) (default : Bool) : Bool :=
  if blankText value then default else !equalIgnoringCase (trimText value) "false"

/-- The items between commas. -/
def parseItems (value : List Char) : List (List Char) :=
  ((Text.splitAll (· == ',') value).map Text.trim).filter fun item => !item.isEmpty

/-- Reads a list. -/
def parseList (value : String) : List String := (parseItems value.toList).map String.ofList

/-- Whether one text begins with another. -/
def beginsWith (start text : String) : Bool := start.toList.isPrefixOf text.toList

/-- The keys that begin with a text, in order. -/
def keysUnder (start : String) (m : Keyed String) : List String :=
  m.keys.filter (beginsWith start)

/-- The rest of a text after another one that it begins with. -/
def stripStart? (start text : String) : Option String :=
  (Text.strip? start.toList text.toList).map String.ofList

/-- Strips one text from the start of another as often as it stands there, at most `n` times. -/
def stripEach : Nat → List Char → List Char → List Char
  | 0,     _,     cs => cs
  | n + 1, start, cs =>
    match Text.strip? start cs with
    | some rest => stripEach n start rest
    | none      => cs

/-- Strips one text from the start of another as often as it stands there. -/
def stripStarts (start text : String) : String :=
  String.ofList (stripEach text.length start.toList text.toList)

end ApiAssembly
