import ApiAssembly.Document.Basic
import ApiAssembly.Schema.Coding

/-!
# Document — Coding — documents as JSON

Each object is written with its modelled keys in one order and its extensions after them, and read
from a table of the same keys. What is not set is left out, but for the title and version of an
info, the name of a tag, the url of a server and the paths of a document.

`Document.read` reads JSON text, of which the first value counts; `Document.ofJson` reads a value
that is already there.
-/

namespace ApiAssembly

/-- An entry for a text that may be absent. -/
def textEntry (key : String) (text : Option String) : List (String × Json) :=
  optionalEntry key .str text

/-- An entry for a flag that may be absent. -/
def flagEntry (key : String) (flag : Option Bool) : List (String × Json) :=
  optionalEntry key .bool flag

/-- Keeps an entry that is not modelled. -/
def keepEntry (m : Keyed Json) (key : String) (d : Draft) : Reading (Keyed Json) := do
  .ok (m.insert key (← d.free))

namespace SecurityRequirement

def toJson (r : SecurityRequirement) : Json := .obj (r.mapValues textList)

def ofDraft (d : Draft) : Reading SecurityRequirement := d.mapOf (Draft.listOf Draft.text)

end SecurityRequirement

namespace Info

def toJson (i : Info) : Json :=
  .obj ([("title", .str i.title), ("version", .str i.version)] ++
    textEntry "description" i.description ++ i.extensions)

def table : List (Field Info) := [
  ⟨"title", fun d i => do .ok { i with title := ← d.scalarText }⟩,
  ⟨"version", fun d i => do .ok { i with version := ← d.scalarText }⟩,
  ⟨"description", fun d i => do .ok { i with description := ← d.optional Draft.scalarText }⟩]

def ofDraft : Draft → Reading Info :=
  Draft.object .info table []
    (fun k d i => do .ok { i with extensions := ← keepEntry i.extensions k d }) {}

end Info

namespace Tag

def toJson (t : Tag) : Json :=
  .obj (("name", .str t.name) :: textEntry "description" t.description ++ t.extensions)

def table : List (Field Tag) := [
  ⟨"name", fun d t => do .ok { t with name := ← d.scalarText }⟩,
  ⟨"description", fun d t => do .ok { t with description := ← d.optional Draft.scalarText }⟩]

def ofDraft : Draft → Reading Tag :=
  Draft.object .tag table ["name"]
    (fun k d t => do .ok { t with extensions := ← keepEntry t.extensions k d }) {}

end Tag

namespace Server

def toJson (s : Server) : Json :=
  .obj (("url", .str s.url) :: textEntry "description" s.description ++ s.extensions)

def table : List (Field Server) := [
  ⟨"url", fun d s => do .ok { s with url := ← d.text }⟩,
  ⟨"description", fun d s => do .ok { s with description := ← d.optional Draft.scalarText }⟩]

def ofDraft : Draft → Reading Server :=
  Draft.object .server table ["url"]
    (fun k d s => do .ok { s with extensions := ← keepEntry s.extensions k d }) {}

end Server

namespace Parameter

def toJson (p : Parameter) : Json :=
  .obj (textEntry "$ref" p.reference ++ textEntry "name" p.name ++ textEntry "in" p.location ++
    textEntry "description" p.description ++ flagEntry "required" p.required ++
    optionalEntry "schema" Schema.toJson p.schema ++ p.extensions)

def table : List (Field Parameter) := [
  ⟨"$ref", fun d p => do .ok { p with reference := ← d.optional Draft.text }⟩,
  ⟨"name", fun d p => do .ok { p with name := ← d.optional Draft.scalarText }⟩,
  ⟨"in", fun d p => do .ok { p with location := ← d.optional Draft.text }⟩,
  ⟨"description", fun d p => do .ok { p with description := ← d.optional Draft.scalarText }⟩,
  ⟨"required", fun d p => do .ok { p with required := ← d.optional Draft.boolean }⟩,
  ⟨"schema", fun d p => do .ok { p with schema := ← d.optional Schema.ofDraft }⟩]

def ofDraft : Draft → Reading Parameter :=
  Draft.object .parameter table []
    (fun k d p => do .ok { p with extensions := ← keepEntry p.extensions k d }) {}

end Parameter

namespace MediaType

def toJson (m : MediaType) : Json :=
  .obj (optionalEntry "schema" Schema.toJson m.schema ++ m.extensions)

def table : List (Field MediaType) := [
  ⟨"schema", fun d m => do .ok { m with schema := ← d.optional Schema.ofDraft }⟩]

def ofDraft : Draft → Reading MediaType :=
  Draft.object .mediaType table []
    (fun k d m => do .ok { m with extensions := ← keepEntry m.extensions k d }) {}

/-- The entry of a content map. -/
def contentEntry (content : Keyed MediaType) : List (String × Json) :=
  mapEntry "content" (content.mapValues toJson)

end MediaType

namespace RequestBody

def toJson (b : RequestBody) : Json :=
  .obj (textEntry "$ref" b.reference ++ textEntry "description" b.description ++
    MediaType.contentEntry b.content ++ flagEntry "required" b.required ++ b.extensions)

def table : List (Field RequestBody) := [
  ⟨"$ref", fun d b => do .ok { b with reference := ← d.optional Draft.text }⟩,
  ⟨"description", fun d b => do .ok { b with description := ← d.optional Draft.scalarText }⟩,
  ⟨"content", fun d b => do .ok { b with content := ← d.mapOf MediaType.ofDraft }⟩,
  ⟨"required", fun d b => do .ok { b with required := ← d.optional Draft.boolean }⟩]

def ofDraft : Draft → Reading RequestBody :=
  Draft.object .requestBody table []
    (fun k d b => do .ok { b with extensions := ← keepEntry b.extensions k d }) {}

end RequestBody

namespace Response

def toJson (r : Response) : Json :=
  .obj (textEntry "$ref" r.reference ++ textEntry "description" r.description ++
    MediaType.contentEntry r.content ++ r.extensions)

def table : List (Field Response) := [
  ⟨"$ref", fun d r => do .ok { r with reference := ← d.optional Draft.text }⟩,
  ⟨"description", fun d r => do .ok { r with description := ← d.optional Draft.scalarText }⟩,
  ⟨"content", fun d r => do .ok { r with content := ← d.mapOf MediaType.ofDraft }⟩]

def ofDraft : Draft → Reading Response :=
  Draft.object .response table []
    (fun k d r => do .ok { r with extensions := ← keepEntry r.extensions k d }) {}

end Response

namespace Operation

def toJson (o : Operation) : Json :=
  .obj (listEntry "tags" (o.tags.map .str) ++ textEntry "summary" o.summary ++
    textEntry "description" o.description ++ textEntry "operationId" o.operationId ++
    listEntry "parameters" (o.parameters.map Parameter.toJson) ++
    optionalEntry "requestBody" RequestBody.toJson o.requestBody ++
    mapEntry "responses" (o.responses.mapValues Response.toJson) ++
    flagEntry "deprecated" o.deprecated ++
    optionalEntry "security" (fun rs => .arr (rs.map SecurityRequirement.toJson)) o.security ++
    o.extensions)

def table : List (Field Operation) := [
  ⟨"tags", fun d o => do .ok { o with tags := ← d.listOf Draft.text }⟩,
  ⟨"summary", fun d o => do .ok { o with summary := ← d.optional Draft.scalarText }⟩,
  ⟨"description", fun d o => do .ok { o with description := ← d.optional Draft.scalarText }⟩,
  ⟨"operationId", fun d o => do .ok { o with operationId := ← d.optional Draft.scalarText }⟩,
  ⟨"parameters", fun d o => do .ok { o with parameters := ← d.listOf Parameter.ofDraft }⟩,
  ⟨"requestBody", fun d o => do .ok { o with requestBody := ← d.optional RequestBody.ofDraft }⟩,
  ⟨"responses", fun d o => do .ok { o with responses := ← d.mapOf Response.ofDraft }⟩,
  ⟨"deprecated", fun d o => do .ok { o with deprecated := ← d.optional Draft.boolean }⟩,
  ⟨"security", fun d o => do
    .ok { o with security := ← d.optional (Draft.listOf SecurityRequirement.ofDraft) }⟩]

def ofDraft : Draft → Reading Operation :=
  Draft.object .operation table []
    (fun k d o => do .ok { o with extensions := ← keepEntry o.extensions k d }) {}

end Operation

namespace PathItem

def toJson (p : PathItem) : Json :=
  .obj (p.operations.map (fun o => (o.1.key, o.2.toJson)) ++
    listEntry "parameters" (p.parameters.map Parameter.toJson) ++ p.extensions)

/-- The field of the operation for a method. -/
def methodField (m : Method) : Field PathItem :=
  ⟨m.key, fun d p => do .ok (p.setOperation m (← d.optional Operation.ofDraft))⟩

def table : List (Field PathItem) :=
  Method.all.map methodField ++
    [⟨"parameters", fun d p => do .ok { p with parameters := ← d.listOf Parameter.ofDraft }⟩]

def ofDraft : Draft → Reading PathItem :=
  Draft.object .pathItem table []
    (fun k d p => do .ok { p with extensions := ← keepEntry p.extensions k d }) {}

end PathItem

namespace Components

def toJson (c : Components) : Json :=
  .obj (mapEntry "schemas" (c.schemas.mapValues Schema.toJson) ++
    mapEntry "responses" (c.responses.mapValues Response.toJson) ++
    mapEntry "parameters" (c.parameters.mapValues Parameter.toJson) ++
    mapEntry "examples" c.examples ++
    mapEntry "requestBodies" (c.requestBodies.mapValues RequestBody.toJson) ++
    mapEntry "headers" c.headers ++
    mapEntry "securitySchemes" c.securitySchemes ++
    mapEntry "links" c.links ++
    mapEntry "callbacks" c.callbacks ++ c.extensions)

def table : List (Field Components) := [
  ⟨"schemas", fun d c => do .ok { c with schemas := ← d.mapOf Schema.ofDraft }⟩,
  ⟨"responses", fun d c => do .ok { c with responses := ← d.mapOf Response.ofDraft }⟩,
  ⟨"parameters", fun d c => do .ok { c with parameters := ← d.mapOf Parameter.ofDraft }⟩,
  ⟨"examples", fun d c => do .ok { c with examples := ← d.mapOf Draft.free }⟩,
  ⟨"requestBodies", fun d c => do .ok { c with requestBodies := ← d.mapOf RequestBody.ofDraft }⟩,
  ⟨"headers", fun d c => do .ok { c with headers := ← d.mapOf Draft.free }⟩,
  ⟨"securitySchemes", fun d c => do .ok { c with securitySchemes := ← d.mapOf Draft.free }⟩,
  ⟨"links", fun d c => do .ok { c with links := ← d.mapOf Draft.free }⟩,
  ⟨"callbacks", fun d c => do .ok { c with callbacks := ← d.mapOf Draft.free }⟩]

def ofDraft : Draft → Reading Components :=
  Draft.object .components table []
    (fun k d c => do .ok { c with extensions := ← keepEntry c.extensions k d }) {}

end Components

namespace Document

/-- The JSON of a document; the paths are always written. -/
def toJson (doc : Document) : Json :=
  .obj (textEntry "openapi" doc.openapi ++ optionalEntry "info" Info.toJson doc.info ++
    optionalEntry "externalDocs" id doc.externalDocs ++
    listEntry "servers" (doc.servers.map Server.toJson) ++
    listEntry "security" (doc.security.map SecurityRequirement.toJson) ++
    listEntry "tags" (doc.tags.map Tag.toJson) ++
    [("paths", .obj (doc.paths.mapValues PathItem.toJson))] ++
    optionalEntry "components" Components.toJson doc.components ++ doc.extensions)

def table : List (Field Document) := [
  ⟨"openapi", fun d doc => do .ok { doc with openapi := ← d.optional Draft.scalarText }⟩,
  ⟨"info", fun d doc => do .ok { doc with info := ← d.optional Info.ofDraft }⟩,
  ⟨"externalDocs", fun d doc => do .ok { doc with externalDocs := ← d.optional Draft.free }⟩,
  ⟨"servers", fun d doc => do .ok { doc with servers := ← d.listOf Server.ofDraft }⟩,
  ⟨"security", fun d doc => do
    .ok { doc with security := ← d.listOf SecurityRequirement.ofDraft }⟩,
  ⟨"tags", fun d doc => do .ok { doc with tags := ← d.listOf Tag.ofDraft }⟩,
  ⟨"paths", fun d doc => do .ok { doc with paths := ← d.mapOf PathItem.ofDraft }⟩,
  ⟨"components", fun d doc => do .ok { doc with components := ← d.optional Components.ofDraft }⟩]

def ofDraft : Draft → Reading Document :=
  Draft.object .document table []
    (fun k d doc => do .ok { doc with extensions := ← keepEntry doc.extensions k d }) {}

/-- Reads the document at the start of a JSON text. -/
def read (text : String) : Reading Document := ofDraft (Draft.read text)

/-- Reads a value as a document. -/
def ofJson (j : Json) : Reading Document := ofDraft j.draft

/-- Equality of documents without regard to the order of keys. -/
def same (a b : Document) : Bool := a.toJson.same b.toJson

end Document

end ApiAssembly
