import ApiAssembly.Yaml.Document
import ApiAssembly.Yaml.Scalar

/-!
# Yaml — Value — the value that a text stands for

Keys are texts, and a mapping has each at most once. The key `<<` brings in the entries of the
mapping behind it, or of the mappings in the sequence behind it: what is written in a mapping wins
over what is brought in, and stands in front of it.

`Yaml.read?` reads the value of a whole text.
-/

namespace ApiAssembly

namespace Yaml

namespace Node

/-- Whether a key brings in the entries of other mappings. -/
def isMergeKey : Node → Bool
  | .scalar true _ ['<', '<'] => true
  | _                         => false

/-- The key that a node is: its text, and what its tag says. -/
def key? : Node → Option (String × TagKind)
  | .scalar plain tag cs =>
    let kind := tagKind tag
    if kind = .null || (plain && isNull cs && kind != .text) then none
    else (scalarText? kind cs).map fun text => (text, kind)
  | _                    => none

/-- An entry of a mapping; it has no value where that cannot be read. -/
structure Entry where
  key : String × TagKind
  value : Option Json

/-- The entries of an object, none where a value is missing. -/
def fields? : List Entry → Option (List (String × Json))
  | []      => some []
  | e :: es =>
    match e.value, fields? es with
    | some x, some fs => some ((e.key.1, x) :: fs)
    | _,      _       => none

/-- Whether a key is one of some entries. -/
def isAmong (es : List Entry) (e : Entry) : Bool := es.any fun other => other.key == e.key

/-- Whether no key is there twice. -/
def keysDiffer : List Entry → Bool
  | []      => true
  | e :: es => !isAmong es e && keysDiffer es

/-- Adds the entries whose keys are not there yet, the first of each key. -/
def bringIn (es : List Entry) : List Entry → List Entry
  | []           => es
  | e :: brought => if isAmong es e then bringIn es brought else bringIn (es ++ [e]) brought

/-- The object of the entries that are written in a mapping and of those that are brought in. -/
def object? (written brought : List Entry) : Option Json :=
  if keysDiffer written then
    (fields? (bringIn written brought)).map fun fs => .obj (Keyed.ofList fs)
  else none

mutual

/-- The value of a node. -/
def value? : Node → Option Json
  | .scalar plain tag cs => scalarValue? plain tag cs
  | .sequence items      => (values? items).map .arr
  | .mapping entries     =>
    match written? entries, merged? entries with
    | some written, some brought => object? written brought
    | _,            _            => none

/-- The values of the items. -/
def values? : List Node → Option (List Json)
  | []      => some []
  | n :: ns =>
    match n.value?, values? ns with
    | some x, some xs => some (x :: xs)
    | _,      _       => none

/-- The entries that are written in a mapping. -/
def written? : List (Node × Node) → Option (List Entry)
  | []           => some []
  | (k, n) :: es =>
    if k.isMergeKey then written? es
    else
      match k.key?, written? es with
      | some key, some rest => some (⟨key, n.value?⟩ :: rest)
      | _,        _         => none

/-- The entries that the keys `<<` of a mapping bring in, those of the last one first. -/
def merged? : List (Node × Node) → Option (List Entry)
  | []           => some []
  | (k, n) :: es =>
    if k.isMergeKey then
      match n.brought?, merged? es with
      | some brought, some rest => some (rest ++ brought)
      | _,            _         => none
    else merged? es

/-- The entries that a node behind the key `<<` stands for. -/
def brought? : Node → Option (List Entry)
  | .scalar plain _ cs => if plain && isNull cs then some [] else none
  | .sequence items    => broughtByAll? items
  | .mapping entries   =>
    match written? entries, merged? entries with
    | some written, some brought => some (written ++ brought)
    | _,            _            => none

/-- The entries of all nodes, those of the last one first. -/
def broughtByAll? : List Node → Option (List Entry)
  | []      => some []
  | n :: ns =>
    match n.brought?, broughtByAll? ns with
    | some brought, some rest => some (rest ++ brought)
    | _,            _         => none

end

end Node

/-- The value of a whole text. -/
def read? (text : String) : Option Json := (document? text).bind Node.value?

end Yaml

end ApiAssembly
