import ApiAssembly.Reading.Field
import ApiAssembly.Schema.Basic

/-!
# Schema — Coding — schemas as JSON

`Schema.toJson` writes the keywords of a node in one order, whatever the order in which they were
read, and leaves out what is not set. `Schema.ofDraft` reads a node; an empty list or map and a
null count as not set.
-/

namespace ApiAssembly

/-- An entry that is written only when there is a value. -/
def optionalEntry {α : Type} (key : String) (write : α → Json) : Option α → List (String × Json)
  | some a => [(key, write a)]
  | none   => []

/-- A list of texts. -/
def textList (texts : List String) : Json := .arr (texts.map .str)

/-- An entry for a list, written only when it has items. -/
def listEntry (key : String) (items : List Json) : List (String × Json) :=
  if items.isEmpty then [] else [(key, .arr items)]

/-- An entry for a map, written only when it has entries. -/
def mapEntry (key : String) (entries : List (String × Json)) : List (String × Json) :=
  if entries.isEmpty then [] else [(key, .obj entries)]

def SchemaType.toJson : SchemaType → Json
  | .single name    => .str name
  | .multiple names => textList names

/-- The texts of a list of strings, none when an item is something else. -/
def textsOf? : List Json → Option (List String)
  | []           => some []
  | .str s :: js => (textsOf? js).map (s :: ·)
  | _ :: _       => none

/-- Reads a `type`: the value is read whole before it is judged. -/
def SchemaType.ofDraft (d : Draft) : Reading SchemaType := do
  match ← d.free with
  | .str s  => .ok (.single s)
  | .arr js =>
    match textsOf? js with
    | some names => .ok (.multiple names)
    | none       => Mismatch.noTypeForm.here
  | _       => Mismatch.noTypeForm.here

namespace Keywords

/-- The keywords that are written in front of the properties. -/
def entriesBefore (k : Keywords) : List (String × Json) :=
  optionalEntry "$ref" .str k.reference ++ optionalEntry "type" SchemaType.toJson k.type ++
    optionalEntry "title" .str k.title ++ optionalEntry "description" .str k.description ++
    optionalEntry "default" id k.default

/-- The keywords whose values hold no schema. -/
def table : List (Field Keywords) := [
  ⟨"$ref", fun d k => do .ok { k with reference := ← d.optional Draft.text }⟩,
  ⟨"type", fun d k => do .ok { k with type := ← d.optional SchemaType.ofDraft }⟩,
  ⟨"title", fun d k => do .ok { k with title := ← d.optional Draft.scalarText }⟩,
  ⟨"description", fun d k => do .ok { k with description := ← d.optional Draft.scalarText }⟩,
  ⟨"default", fun d k => do .ok { k with default := ← d.optional Draft.free }⟩,
  ⟨"required", fun d k => do .ok { k with required := ← d.listOf Draft.text }⟩]

/-- Keeps a keyword that is not modelled. -/
def extend (key : String) (d : Draft) (k : Keywords) : Reading Keywords := do
  let j ← d.free
  .ok { k with extensions := k.extensions.insert key j }

end Keywords

namespace Schema

mutual

/-- The JSON of a schema. -/
def toJson : Schema → Json
  | ⟨own, properties, items, allOf⟩ =>
    .obj (own.entriesBefore ++ mapEntry "properties" (propertiesJson properties) ++
      listEntry "required" (own.required.map .str) ++ listEntry "allOf" (schemasJson allOf) ++
      itemsEntry items ++ own.extensions)

/-- The JSON of named schemas. -/
def propertiesJson : List (String × Schema) → List (String × Json)
  | []          => []
  | (k, s) :: r => (k, s.toJson) :: propertiesJson r

/-- The JSON of a list of schemas. -/
def schemasJson : List Schema → List Json
  | []     => []
  | s :: r => s.toJson :: schemasJson r

/-- The entry of an `items` schema. -/
def itemsEntry : Option Schema → List (String × Json)
  | some s => [("items", s.toJson)]
  | none   => []

end

/-- The keywords whose values are or hold schemas. -/
inductive Slot where
  | properties | allOf | items

/-- The slot of a key. -/
def Slot.of? (key : String) : Option Slot :=
  if key = "properties" then some .properties
  else if key = "allOf" then some .allOf
  else if key = "items" then some .items
  else none

mutual

/-- Reads a schema. -/
def ofDraft : Draft → Reading Schema
  | .record fields e => ofFields ⟨{}, []⟩ e fields
  | d                => d.refuseFields (.object .schema)

/-- Reads the fields of a schema in the order of the text. -/
def ofFields (p : Partial Schema) (e : Ending) : List (String × Draft) → Reading Schema
  | []             => if e.stops then .error .malformed else .ok p.object
  | (k, d) :: rest =>
    match Slot.of? k with
    | none      =>
      match Partial.readField Keywords.table Keywords.extend ⟨p.object.own, p.seen⟩ k d with
      | .ok q    => ofFields ⟨{ p.object with own := q.object }, q.seen⟩ e rest
      | .error f => .error f
    | some slot =>
      if p.seen.contains k then (Mismatch.duplicateField k).here
      else
        match Reading.under (.key k) (ofSlot p.object slot d) with
        | .ok s    => ofFields ⟨s, k :: p.seen⟩ e rest
        | .error f => .error f

/-- Reads the value of a slot into a schema. -/
def ofSlot (s : Schema) : Slot → Draft → Reading Schema
  | .properties, .record fields e =>
    match ofEntries fields with
    | .ok es   =>
      if e.stops then .error .malformed else .ok { s with properties := Keyed.ofList es }
    | .error f => .error f
  | .properties, d                => d.refuseFields .map
  | .items,      .null            => .ok { s with items := none }
  | .items,      .record fields e =>
    match ofFields ⟨{}, []⟩ e fields with
    | .ok t    => .ok { s with items := some t }
    | .error f => .error f
  | .items,      d                => d.refuseFields (.object .schema)
  | .allOf,      .list ds         =>
    match ofItems 0 ds with
    | .ok ss   => .ok { s with allOf := ss }
    | .error f => .error f
  | .allOf,      d                => d.refuseItems .sequence

/-- Reads named schemas. -/
def ofEntries : List (String × Draft) → Reading (List (String × Schema))
  | []             => .ok []
  | (k, d) :: rest =>
    match Reading.under (.key k) (ofDraft d) with
    | .error f => .error f
    | .ok s    =>
      match ofEntries rest with
      | .ok ss   => .ok ((k, s) :: ss)
      | .error f => .error f

/-- Reads a list of schemas from an index on. -/
def ofItems (i : Nat) : List Draft → Reading (List Schema)
  | []        => .ok []
  | d :: rest =>
    match Reading.under (.index i) (ofDraft d) with
    | .error f => .error f
    | .ok s    =>
      match ofItems (i + 1) rest with
      | .ok ss   => .ok (s :: ss)
      | .error f => .error f

end

end Schema

end ApiAssembly
