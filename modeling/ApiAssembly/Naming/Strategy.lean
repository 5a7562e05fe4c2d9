import ApiAssembly.Document.Basic
import ApiAssembly.Naming.Words

/-!
# Naming — Strategy — how properties are named

A strategy renames the properties of every component schema, and the names in its list of required
properties with them. Two names that become one keep the first property.
-/

namespace ApiAssembly

/-- How properties are named. -/
inductive NamingStrategy where
  | lowerCamelCase | upperCamelCase | snakeCase | upperSnakeCase | lowerCase | kebabCase
  | lowerDotCase
  deriving DecidableEq

namespace NamingStrategy

def all : List NamingStrategy :=
  [.lowerCamelCase, .upperCamelCase, .snakeCase, .upperSnakeCase, .lowerCase, .kebabCase,
    .lowerDotCase]

/-- The identifier of a strategy. -/
def name : NamingStrategy → String
  | .lowerCamelCase => "LOWER_CAMEL_CASE"
  | .upperCamelCase => "UPPER_CAMEL_CASE"
  | .snakeCase      => "SNAKE_CASE"
  | .upperSnakeCase => "UPPER_SNAKE_CASE"
  | .lowerCase      => "LOWER_CASE"
  | .kebabCase      => "KEBAB_CASE"
  | .lowerDotCase   => "LOWER_DOT_CASE"

/-- The strategy of an identifier, in any case and with blanks around it. -/
def ofName? (identifier : String) : Option NamingStrategy :=
  let wanted := (Text.trim identifier.toList).map Char.toUpper
  all.find? fun s => s.name.toList == wanted

/-- The words for an identifier that names no strategy. -/
def unknownMessage (identifier : String) : String :=
  "unknown naming strategy '" ++ identifier ++ "'"

/-- Renames a property. -/
def translate (s : NamingStrategy) (name : String) : String :=
  match s with
  | .lowerCamelCase => name
  | .upperCamelCase =>
    match name.toList with
    | []      => ""
    | c :: cs => String.ofList (upperOf c ++ cs)
  | .snakeCase      => String.ofList (separateWords '_' .lower name.toList)
  | .upperSnakeCase => String.ofList (separateWords '_' .upper name.toList)
  | .lowerCase      => lowerText name
  | .kebabCase      => String.ofList (separateWords '-' .lower name.toList)
  | .lowerDotCase   =>
    String.ofList ((separateWords '_' .lower name.toList).map fun c => if c = '_' then '.' else c)

end NamingStrategy

/-- Renames the properties of a node and its required names. -/
def Schema.rename (translate : String → String) (s : Schema) : Schema :=
  { s with
    properties := s.properties.foldl (fun m p => Keyed.insertNew m (translate p.1) p.2) []
    own := { s.own with required := s.own.required.map translate } }

/-- Renames the properties of every component schema. -/
def Document.rename (translate : String → String) (d : Document) : Document :=
  { d with components := d.components.map fun c =>
      { c with schemas := c.schemas.mapValues (Schema.rename translate) } }

end ApiAssembly
