import ApiAssembly.Keyed
import ApiAssembly.Number.Text

/-!
# Json — free-form values

A value of a document that the model does not look into: extensions, defaults, examples. Objects
keep the order of their keys. `Json.same` is the equality that merging and normalizing go by: it
looks away from the order of keys, and an integer never equals a double.
-/

namespace ApiAssembly

/-- A JSON value; the entries of an object are in order, and readers write a key at most once. -/
inductive Json where
  | null
  | bool (flag : Bool)
  | num (number : Number)
  | str (text : String)
  | arr (items : List Json)
  | obj (entries : List (String × Json))

namespace Json

instance : Inhabited Json := ⟨.null⟩

mutual

/-- Equality without regard to the order of keys. -/
def same : Json → Json → Bool
  | .null,   .null   => true
  | .bool a, .bool b => a == b
  | .num a,  .num b  => a.same b
  | .str a,  .str b  => a == b
  | .arr a,  .arr b  => sameItems a b
  | .obj a,  .obj b  => a.length == b.length && sameEntries a b
  | _,       _       => false

/-- Equal item by item. -/
def sameItems : List Json → List Json → Bool
  | [],     []     => true
  | x :: a, y :: b => x.same y && sameItems a b
  | _,      _      => false

/-- Every entry of the first map has an equal one in the second. -/
def sameEntries : List (String × Json) → List (String × Json) → Bool
  | [],          _ => true
  | (k, x) :: a, b =>
    (match Keyed.get? b k with
      | some y => x.same y
      | none   => false) && sameEntries a b

end

/-- The value under a key of an object. -/
def get? : Json → String → Option Json
  | .obj entries, key => Keyed.get? entries key
  | _,            _   => none

end Json

end ApiAssembly
