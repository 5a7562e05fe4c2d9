import ApiAssembly.Document.Coding
import ApiAssembly.Placeholder.Expander
import ApiAssembly.SortedTexts
import ApiAssembly.Warning

/-!
# Placeholder — Resolve — the tokens of whole values

Every text of a value is expanded, its keys as well as its strings; blank texts are left alone.
Entries of an object whose keys become one are written one over the other. A document is resolved
as the value that it is written as, and read again.
-/

namespace ApiAssembly

/-- Applies a function to a text that is not blank. -/
def unlessBlank (f : String → String) (s : String) : String := if blankText s then s else f s

namespace Json

mutual

/-- Applies a function to every text of a value, keys included. -/
def mapText (f : String → String) : Json → Json
  | .str s      => .str (unlessBlank f s)
  | .arr items  => .arr (mapTextItems f items)
  | .obj fields => .obj (Keyed.ofList (mapTextFields f fields))
  | .null       => .null
  | .bool b     => .bool b
  | .num n      => .num n

/-- The items with a function applied to their texts. -/
def mapTextItems (f : String → String) : List Json → List Json
  | []     => []
  | x :: r => x.mapText f :: mapTextItems f r

/-- The entries with a function applied to their texts. -/
def mapTextFields (f : String → String) : List (String × Json) → List (String × Json)
  | []          => []
  | (k, x) :: r => (unlessBlank f k, x.mapText f) :: mapTextFields f r

end

mutual

/-- The texts of a value in order, keys included. -/
def texts : Json → List String
  | .str s      => [s]
  | .arr items  => textsOfItems items
  | .obj fields => textsOfFields fields
  | .null       => []
  | .bool _     => []
  | .num _      => []

/-- The texts of items. -/
def textsOfItems : List Json → List String
  | []     => []
  | x :: r => x.texts ++ textsOfItems r

/-- The texts of entries. -/
def textsOfFields : List (String × Json) → List String
  | []          => []
  | (k, x) :: r => k :: x.texts ++ textsOfFields r

end

end Json

namespace Expander

/-- There is no token in a blank text, so it makes no difference that it is left alone. -/
theorem unlessBlank_expand (e : Expander) : unlessBlank e.expand = e.expand := by
  funext text
  rw [unlessBlank]
  split
  case isTrue hblank =>
    have hdollar : '$' ∉ text.toList := fun h =>
      absurd (List.all_eq_true.mp hblank _ h) (by decide)
    exact (e.expand_of_not_opens (Placeholder.opensToken_of_no_dollar hdollar)).symm
  case isFalse => rfl

/-- The value with all its texts expanded. -/
def resolve (e : Expander) (j : Json) : Json := j.mapText e.expand

/-- The tokens that expanding a value leaves unresolved. -/
def unresolvedIn (e : Expander) (j : Json) : List String :=
  (j.texts.filter fun s => !blankText s).flatMap e.unresolved

/-- The document with all its texts expanded. -/
def resolveDocument (e : Expander) (d : Document) : Reading Document :=
  Document.ofJson (e.resolve d.toJson)

end Expander

/-- The warnings for unresolved tokens: one for each, in increasing order. -/
def unresolvedWarnings (tokens : List String) : List Warning :=
  (sortedTexts tokens).map .unresolvedPlaceholder

end ApiAssembly
