import ApiAssembly.Json.Basic

/-!
# Schema — the nodes of a schema tree

A schema node holds other schemas in three places: its properties, its items and the entries of its
`allOf` list. All else that it says is its `Keywords`; a keyword that is not modelled stays among
the extensions. A `$ref` is a text and is never followed, so a tree is all there is.
-/

namespace ApiAssembly

/-- The `type` keyword: one type name, or a list of them. -/
inductive SchemaType where
  | single (name : String)
  | multiple (names : List String)
  deriving DecidableEq

/-- What a schema node says apart from the schemas in it. `name` is its name as a component, which
is not written out. -/
structure Keywords where
  name : Option String := none
  reference : Option String := none
  type : Option SchemaType := none
  title : Option String := none
  description : Option String := none
  default : Option Json := none
  required : List String := []
  extensions : Keyed Json := []

/-- A schema node. -/
structure Schema where
  own : Keywords := {}
  properties : List (String × Schema) := []
  items : Option Schema := none
  allOf : List Schema := []

/-- The start of every reference to a component schema. -/
def schemaReference (name : String) : String := "#/components/schemas/" ++ name

namespace Keywords

/-- Whether there is a `$ref` that is not empty. -/
def hasReference (k : Keywords) : Bool :=
  match k.reference with
  | some r => r != ""
  | none   => false

end Keywords

namespace Schema

instance : Inhabited Schema := ⟨{}⟩

/-- Whether the node has a `$ref` that is not empty. -/
def hasReference (s : Schema) : Bool := s.own.hasReference

/-- Whether no keyword at all is set. -/
def isEmpty (s : Schema) : Bool :=
  s.own.reference.isNone && s.own.type.isNone && s.own.title.isNone &&
    s.own.description.isNone && s.own.default.isNone && s.properties.isEmpty &&
    s.own.required.isEmpty && s.allOf.isEmpty && s.items.isNone && s.own.extensions.isEmpty

/-- Whether nothing but `allOf`, `default` and `type` is set: such a node only wraps its entries. -/
def isWrapper (s : Schema) : Bool :=
  s.own.reference.isNone && s.own.title.isNone && s.own.description.isNone &&
    s.properties.isEmpty && s.own.required.isEmpty && s.items.isNone && s.own.extensions.isEmpty

end Schema

end ApiAssembly
