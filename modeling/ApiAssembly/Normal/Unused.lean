import ApiAssembly.Document.Coding
import ApiAssembly.Text.Basic

/-!
# Normal — Unused — component schemas that nothing refers to

A text refers to the schema of a name when the reference to it stands in the text as a quoted
string. A schema is used when the document without its schemas refers to it, or when a used schema
does. A `Search` starts with the names of the first kind; a step takes the name that was reached
last, looks through its schema, and reaches the names that the schema refers to and that were not
reached yet. Every step takes one name away and no name comes twice, so the search is over after as
many steps as there are schemas; the schemas that it did not reach are dropped.
-/

namespace ApiAssembly

/-- The reference to a component schema as it stands in a JSON text. -/
def quotedReference (name : String) : List Char := Json.quote (schemaReference name)

/-- Whether a text refers to the schema of a name. -/
def refersTo (text : List Char) (name : String) : Bool := Text.occurs (quotedReference name) text

/-- A search for the schemas that are used. -/
structure Search where
  /-- The names that were reached, in the order in which they were. -/
  reached : List String
  /-- The reached names whose schemas are still to be looked through, the next one first. -/
  pending : List String
  deriving DecidableEq

namespace Search

/-- The search that has reached the names that a text outside of the schemas refers to. -/
def start (schemas : Keyed Schema) (outside : List Char) : Search :=
  let roots := schemas.keys.filter (refersTo outside)
  { reached := roots, pending := roots.reverse }

/-- Reaches a name, if it was not reached before and one of the texts refers to it. -/
def reach (texts : List (List Char)) (s : Search) (name : String) : Search :=
  if !s.reached.contains name && texts.any (refersTo · name) then
    { reached := s.reached ++ [name], pending := name :: s.pending }
  else s

/-- The texts of what a map of schemas has for a name. -/
def textsOf (schemas : Keyed Schema) (name : String) : List (List Char) :=
  (schemas.filter fun entry => entry.1 == name).map fun entry => entry.2.toJson.chars

/-- Looks through the schema of the next name. -/
def step (schemas : Keyed Schema) (s : Search) : Search :=
  match s.pending with
  | []           => s
  | name :: rest => schemas.keys.foldl (reach (textsOf schemas name)) { s with pending := rest }

/-- The search when it is over. -/
def run (schemas : Keyed Schema) (outside : List Char) : Search :=
  Nat.repeat (step schemas) schemas.length (start schemas outside)

end Search

namespace Document

/-- The document without its component schemas. -/
def withoutSchemas (d : Document) : Document :=
  { d with components := d.components.map fun c => { c with schemas := [] } }

/-- Drops the component schemas that are not used. -/
def dropUnused (d : Document) : Document :=
  match d.components with
  | none   => d
  | some c =>
    if c.schemas.isEmpty then d
    else
      let used := (Search.run c.schemas d.withoutSchemas.toJson.chars).reached
      { d with components := some { c with
          schemas := c.schemas.filter fun entry => used.contains entry.1 } }

end Document

end ApiAssembly
