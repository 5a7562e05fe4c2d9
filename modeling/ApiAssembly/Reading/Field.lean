import ApiAssembly.Reading.Mismatch

/-!
# Reading — Field — reading objects in the order of the text

The readers of scalars, lists and maps, and the reader of an object from a table of its modelled
fields. All of them walk a draft in the order of the text and stop at the first fault; a place is
built on the way out. A field that is there twice is a mismatch, a key that is not modelled is kept
with its value among the extensions.
-/

namespace ApiAssembly

namespace Draft

/-- What a message calls this draft, none where the text goes wrong before that can be said. -/
def found? : Draft → Option Found
  | .null            => some .null
  | .bool b          => some (.boolean b)
  | .num (.int i)    => some (.integer i)
  | .num (.float d)  => some (.double d)
  | .str s           => some (.text s)
  | .list _          => some .sequence
  | .record _ _      => some .map
  | .beyond (.list _)     => some .sequence
  | .beyond (.record _ _) => some .map
  | .beyond _        => none
  | .valueless       => none
  | .broken          => none

/-- The draft is not what is wanted. -/
def refuse {α : Type} (d : Draft) (wanted : Wanted) : Reading α :=
  match d.found? with
  | some f => (Mismatch.wrongType f wanted).here
  | none   => .error .malformed

/-- Any value. -/
def free (d : Draft) : Reading Json :=
  match d.json? with
  | some j => .ok j
  | none   => .error .malformed

/-- A string. -/
def text : Draft → Reading String
  | .str s => .ok s
  | d      => d.refuse .text

/-- A boolean. -/
def boolean : Draft → Reading Bool
  | .bool b => .ok b
  | d       => d.refuse .boolean

/-- A string, or the text of a number or a boolean; the value is read whole before it is judged. -/
def scalarText (d : Draft) : Reading String := do
  match ← d.free with
  | .str s      => .ok s
  | .num n      => .ok (String.ofList n.chars)
  | .bool true  => .ok "true"
  | .bool false => .ok "false"
  | .null       => (Mismatch.wrongType .null .scalar).here
  | .arr _      => (Mismatch.wrongType .sequence .scalar).here
  | .obj _      => (Mismatch.wrongType .map .scalar).here

/-- A value that may be null. -/
def optional {α : Type} (read : Draft → Reading α) : Draft → Reading (Option α)
  | .null => .ok none
  | d     => (read d).map some

/-- The draft is not the list that is wanted, or is one that cannot be read. -/
def refuseItems {α : Type} (wanted : Wanted) : Draft → Reading α
  | .beyond (.list _) => .error .malformed
  | d                 => d.refuse wanted

/-- The draft is not the record that is wanted, or is one that cannot be read. -/
def refuseFields {α : Type} (wanted : Wanted) : Draft → Reading α
  | .beyond (.record _ _) => .error .malformed
  | d                     => d.refuse wanted

/-- The items of a list. -/
def items (wanted : Wanted) : Draft → Reading (List Draft)
  | .list ds => .ok ds
  | d        => d.refuseItems wanted

/-- The fields of a record, and how it ends. -/
def fields (wanted : Wanted) : Draft → Reading (List (String × Draft) × Ending)
  | .record fs e => .ok (fs, e)
  | d            => d.refuseFields wanted

/-- The items of a list, each read at its index. -/
def itemsFrom {α : Type} (read : Draft → Reading α) : Nat → List Draft → Reading (List α)
  | _, []      => .ok []
  | i, d :: ds => do
    let x ← (read d).under (.index i)
    let xs ← itemsFrom read (i + 1) ds
    .ok (x :: xs)

/-- A list. -/
def listOf {α : Type} (read : Draft → Reading α) (d : Draft) : Reading (List α) := do
  itemsFrom read 0 (← d.items .sequence)

/-- The entries of a map, each read at its key. -/
def entriesOf {α : Type} (read : Draft → Reading α) :
    List (String × Draft) → Reading (List (String × α))
  | []           => .ok []
  | (k, d) :: ds => do
    let x ← (read d).under (.key k)
    let xs ← entriesOf read ds
    .ok ((k, x) :: xs)

/-- A map; of a repeated key the last value counts and the first place stays. -/
def mapOf {α : Type} (read : Draft → Reading α) (d : Draft) : Reading (Keyed α) := do
  let (fs, ending) ← d.fields .map
  let entries ← entriesOf read fs
  if ending.stops then .error .malformed else .ok (Keyed.ofList entries)

end Draft

/-- A modelled field of an object: its name, and how its value is read into the object. -/
structure Field (α : Type) where
  name : String
  read : Draft → α → Reading α

/-- What is known of an object while its fields are read. -/
structure Partial (α : Type) where
  object : α
  seen : List String := []

/-- Reads one field of an object. -/
def Partial.readField {α : Type} (table : List (Field α))
    (other : String → Draft → α → Reading α) (p : Partial α) (key : String) (d : Draft) :
    Reading (Partial α) :=
  match table.find? fun f => f.name == key with
  | none   => (other key d p.object).map fun a => { p with object := a }
  | some f =>
    if p.seen.contains key then (Mismatch.duplicateField key).here
    else (Reading.under (.key key) (f.read d p.object)).map fun a => ⟨a, key :: p.seen⟩

/-- Reads the fields of an object in the order of the text. -/
def Partial.readFields {α : Type} (table : List (Field α))
    (other : String → Draft → α → Reading α) : Partial α → List (String × Draft) →
    Reading (Partial α)
  | p, []           => .ok p
  | p, (k, d) :: ds => do
    let p ← p.readField table other k d
    p.readFields table other ds

/-- The first required field that is missing. -/
def missing? (required seen : List String) : Option String :=
  required.find? fun name => !seen.contains name

/-- Reads an object: its modelled fields by the table, every other key by `other`. -/
def Draft.object {α : Type} (kind : Kind) (table : List (Field α)) (required : List String)
    (other : String → Draft → α → Reading α) (empty : α) (d : Draft) : Reading α := do
  let (fs, ending) ← d.fields (.object kind)
  let p ← Partial.readFields table other ⟨empty, []⟩ fs
  if ending.stops then .error .malformed
  else match missing? required p.seen with
    | some name => (Mismatch.missingField name).here
    | none      => .ok p.object

end ApiAssembly
