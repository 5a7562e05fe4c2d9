import ApiAssembly.Json.Draft
import ApiAssembly.Text.Shown

/-!
# Reading — Mismatch — what can be wrong with a document, and where

Reading a draft as a document can fail in two ways: the text itself goes wrong, or a value does not
match the model. A mismatch has a cause and a place, the keys and indexes from the root down to the
value. `Mismatch.message` and `placeText` are the words for both.
-/

namespace ApiAssembly

/-- One step from a value to a part of it. -/
inductive Step where
  | key (name : String)
  | index (i : Nat)
  deriving DecidableEq

/-- A place in a document, from the root down. -/
abbrev Place := List Step

/-- The objects of the model. -/
inductive Kind where
  | document | info | tag | server | components | pathItem | operation | parameter | mediaType
  | requestBody | response | schema | endpoint
  deriving DecidableEq

/-- What a message calls a value that was found. -/
inductive Found where
  | integer (value : Int)
  | double (value : Double)
  | boolean (flag : Bool)
  | text (s : String)
  | null
  | sequence
  | map
  deriving DecidableEq

/-- What the model wants in a place. -/
inductive Wanted where
  | object (kind : Kind)
  | map
  | sequence
  | set
  | text
  | boolean
  | unit
  | scalar
  deriving DecidableEq

/-- Why a value does not match the model. -/
inductive Mismatch where
  | wrongType (found : Found) (wanted : Wanted)
  | missingField (name : String)
  | duplicateField (name : String)
  | unknownMethod (name : String)
  | noTypeForm
  | tooShort (length : Nat)
  deriving DecidableEq

/-- Why a draft cannot be read as a document. -/
inductive Fault where
  | malformed
  | mismatch (place : Place) (cause : Mismatch)
  deriving DecidableEq

def Kind.name : Kind → String
  | .document    => "Document"
  | .info        => "Info"
  | .tag         => "Tag"
  | .server      => "Server"
  | .components  => "Components"
  | .pathItem    => "PathItem"
  | .operation   => "Operation"
  | .parameter   => "Parameter"
  | .mediaType   => "MediaType"
  | .requestBody => "RequestBody"
  | .response    => "ApiResponse"
  | .schema      => "Schema"
  | .endpoint    => "EndpointRecord"

def Found.name : Found → String
  | .integer i     => "integer `" ++ String.ofList (intChars i) ++ "`"
  | .double d      => "floating point `" ++ String.ofList d.chars ++ "`"
  | .boolean true  => "boolean `true`"
  | .boolean false => "boolean `false`"
  | .text s        => "string " ++ shown s
  | .null          => "null"
  | .sequence      => "sequence"
  | .map           => "map"

def Wanted.name : Wanted → String
  | .object kind => "struct " ++ kind.name
  | .map         => "a map"
  | .sequence    => "a sequence"
  | .set         => "a set"
  | .text        => "a string"
  | .boolean     => "a boolean"
  | .unit        => "unit"
  | .scalar      => "a string, number or boolean"

/-- The words for a mismatch. -/
def Mismatch.message : Mismatch → String
  | .wrongType found wanted => "invalid type: " ++ found.name ++ ", expected " ++ wanted.name
  | .missingField name      => "missing field `" ++ name ++ "`"
  | .duplicateField name    => "duplicate field `" ++ name ++ "`"
  | .unknownMethod name     =>
    "unknown variant `" ++ name ++ "`, expected one of `GET`, `PUT`, `POST`, `DELETE`, " ++
      "`OPTIONS`, `HEAD`, `PATCH`, `TRACE`"
  | .noTypeForm             => "data did not match any variant of untagged enum SchemaType"
  | .tooShort n             =>
    "invalid length " ++ String.ofList (digitChars n) ++
      ", expected struct EndpointRecord with 7 elements"

/-- The steps of a place, each key but the first after a point. -/
def stepsChars (first : Bool) : Place → List Char
  | []                => []
  | .key name :: rest => (if first then [] else ['.']) ++ name.toList ++ stepsChars false rest
  | .index i :: rest  => '[' :: digitChars i ++ ']' :: stepsChars false rest

/-- The words for a place: a point for the root, else its keys and indexes. -/
def placeText (p : Place) : String :=
  if p.isEmpty then "." else String.ofList (stepsChars true p)

/-- Moves a fault of a part to the whole: the place gains its first step. -/
def Fault.under (step : Step) : Fault → Fault
  | .malformed        => .malformed
  | .mismatch place c => .mismatch (step :: place) c

/-- What comes of reading a draft. -/
abbrev Reading (α : Type) := Except Fault α

/-- The outcome for a part, seen from the whole. -/
def Reading.under {α : Type} (step : Step) : Reading α → Reading α
  | .ok a    => .ok a
  | .error f => .error (f.under step)

/-- A mismatch at the root. -/
def Mismatch.here {α : Type} (cause : Mismatch) : Reading α := .error (.mismatch [] cause)

end ApiAssembly
