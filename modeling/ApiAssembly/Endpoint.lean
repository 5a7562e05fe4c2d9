import ApiAssembly.Document.Coding
import ApiAssembly.TextSet

/-!
# Endpoint — one operation as a scanner found it

An endpoint is an operation with its path and method, the groups that it belongs to or must stay
out of, and the version and package that it was found in. Endpoints are read from a JSON list. One
of them is an object, or the list of its values in the order of its fields; a key that is not
modelled is passed over. A method is its name, or an object with its name over null.
-/

namespace ApiAssembly

structure Endpoint where
  url : String := ""
  method : Method := .get
  operation : Operation := {}
  groups : TextSet := ∅
  excludedGroups : TextSet := ∅
  version : Option String := none
  package : Option String := none

/-- Reads a set of texts. -/
def Draft.textSet (d : Draft) : Reading TextSet := do
  .ok (.ofList (← itemsFrom Draft.text 0 (← d.items .set)))

/-- Reads a null. -/
def Draft.unit : Draft → Reading Unit
  | .null => .ok ()
  | d     => d.refuse .unit

/-- Reads the name of a method. -/
def Method.ofText (name : String) : Reading Method :=
  match Method.ofName? name with
  | some m => .ok m
  | none   => (Mismatch.unknownMethod name).here

/-- Reads a method. -/
def Method.ofDraft : Draft → Reading Method
  | .str name                        => Method.ofText name
  | .record ((name, d) :: rest) e    => do
    let m ← Method.ofText name
    d.unit.under (.key name)
    if rest.isEmpty && !e.stops then .ok m else .error .malformed
  | _                                => .error .malformed

namespace Endpoint

/-- The JSON of an endpoint; empty sets and what is absent are left out. -/
def toJson (e : Endpoint) : Json :=
  .obj ([("url", .str e.url), ("method", .str e.method.name), ("operation", e.operation.toJson)] ++
    listEntry "groups" (e.groups.items.map .str) ++
    listEntry "excludedGroups" (e.excludedGroups.items.map .str) ++
    textEntry "version" e.version ++ textEntry "package" e.package)

def table : List (Field Endpoint) := [
  ⟨"url", fun d e => do .ok { e with url := ← d.text }⟩,
  ⟨"method", fun d e => do .ok { e with method := ← Method.ofDraft d }⟩,
  ⟨"operation", fun d e => do .ok { e with operation := ← Operation.ofDraft d }⟩,
  ⟨"groups", fun d e => do .ok { e with groups := ← d.textSet }⟩,
  ⟨"excludedGroups", fun d e => do .ok { e with excludedGroups := ← d.textSet }⟩,
  ⟨"version", fun d e => do .ok { e with version := ← d.optional Draft.text }⟩,
  ⟨"package", fun d e => do .ok { e with package := ← d.optional Draft.text }⟩]

/-- The fields that every endpoint has. -/
def required : List String := ["url", "method", "operation"]

/-- Passes over a value that is not modelled. -/
def skip (d : Draft) (e : Endpoint) : Reading Endpoint :=
  if d.wellWritten then .ok e else .error .malformed

/-- Reads the values of an endpoint by their order, from an index on. -/
def ofItems (e : Endpoint) (i : Nat) : List (Field Endpoint) → List Draft → Reading Endpoint
  | [],          []      => .ok e
  | [],          _ :: _  => .error .malformed
  | _ :: _,      []      =>
    if i < required.length then (Mismatch.tooShort i).here else .ok e
  | f :: fields, d :: ds => do
    let e ← (f.read d e).under (.index i)
    ofItems e (i + 1) fields ds

/-- Reads an endpoint. -/
def ofDraft : Draft → Reading Endpoint
  | .list ds          => ofItems {} 0 table ds
  | .beyond (.list _) => .error .malformed
  | d                 => Draft.object .endpoint table required (fun _ => skip) {} d

/-- Reads the list of endpoints at the start of a JSON text. -/
def readList (text : String) : Reading (List Endpoint) := (Draft.read text).listOf ofDraft

end Endpoint

end ApiAssembly
