import ApiAssembly.Config.Layer

/-!
# Placeholder — Expander — texts with their tokens replaced

An expander puts the value of each alias in the place of the alias, and then, pass by pass, the
value of the first layer in the place of each token that has one, until no token has a value or
sixteen passes are over. The tokens that are left and have no value are unresolved.
-/

namespace ApiAssembly

/-- What the tokens of a text stand for. An alias is a whole token and what replaces it. -/
structure Expander where
  aliases : List (String × String) := []
  layers : List Layer := []

namespace Expander

/-- How many passes are made over a text. -/
def passLimit : Nat := 16

/-- The value of a token. -/
def value? (e : Expander) (token : String) : Option String := resolveToken? e.layers token

/-- Puts the values of the aliases into a text, one alias after the other. -/
def replaceAliases (e : Expander) (cs : List Char) : List Char :=
  e.aliases.foldl (fun cs a => Text.replaceAll a.1.toList a.2.toList cs) cs

/-- Replaces tokens pass by pass, at most `n` times. -/
def passes (e : Expander) : Nat → List Char → List Char
  | 0,     cs => cs
  | n + 1, cs =>
    if (Placeholder.tokens cs).any fun t => (e.value? t).isSome then
      e.passes n (Placeholder.substitute e.value? cs)
    else cs

/-- The text with its tokens replaced. -/
def expandChars (e : Expander) (cs : List Char) : List Char :=
  if Placeholder.opensToken cs then e.passes passLimit (e.replaceAliases cs) else cs

/-- A text without a token stays as it is. -/
theorem expandChars_of_not_opens (e : Expander) {cs : List Char}
    (h : Placeholder.opensToken cs = false) : e.expandChars cs = cs := by
  rw [expandChars, h]
  rfl

/-- The text with its tokens replaced. -/
def expand (e : Expander) (text : String) : String := String.ofList (e.expandChars text.toList)

theorem expand_of_not_opens (e : Expander) {text : String}
    (h : Placeholder.opensToken text.toList = false) : e.expand text = text := by
  rw [expand, e.expandChars_of_not_opens h, String.ofList_toList]

/-- The tokens that are left in an expanded text and have no value. -/
def leftIn (e : Expander) (expanded : List Char) : List String :=
  (Placeholder.tokens expanded).filter fun t => (e.value? t).isNone

/-- The tokens that expanding a text leaves unresolved. -/
def unresolved (e : Expander) (text : String) : List String :=
  if Placeholder.opensToken text.toList then e.leftIn (e.expandChars text.toList) else []

end Expander

end ApiAssembly
