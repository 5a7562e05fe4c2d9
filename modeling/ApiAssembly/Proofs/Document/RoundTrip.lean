import ApiAssembly.Proofs.Schema.Coding

/-!
# Proofs — Document — documents are read as they are written

Every kind of object of a document is a shape: the table that it is read from and the entries that
are written of it come from one list of cells.  So **a document that was read is read again from
what is written of it** (`Document.roundTrips`), kind by kind from the inside out.
-/

namespace ApiAssembly

/-- A requirement is a map of lists of texts, and is read as it is written. -/
theorem SecurityRequirement.roundTrips (d : Draft) : d.RoundTrips ofDraft toJson :=
  Draft.roundTrips_mapOf fun _ _ => Draft.roundTrips_listOf fun x _ => x.roundTrips_text

namespace Info

def shape : Shape Info where
  kind := .info
  rest := .kept
  cells := [
    .always "title" Draft.scalarText .str "" rfl,
    .always "version" Draft.scalarText .str "" rfl,
    .optional "description" Draft.scalarText .str]
  view := {
    get := fun i => (i.title, i.version, i.description, i.extensions)
    set := fun (title, version, description, extensions) _ =>
      ⟨title, version, description, extensions⟩ }
  required := []
  empty := {}
  required_written := nofun

/-- The cells of an info are what it is read from and what is written of it. -/
theorem shape_describes : shape.Describes ofDraft toJson where
  read_eq := rfl
  write_eq := by
    funext i
    simp only [toJson, List.cons_append, List.nil_append]
    rfl
  soundAt x := by
    simp only [shape, List.forall_mem_cons]
    exact ⟨.always x.roundTrips_scalarText, .always x.roundTrips_scalarText, .scalarText, nofun⟩

/-- An info that was read is read again from what is written of it. -/
theorem roundTrips : ∀ d : Draft, d.RoundTrips ofDraft toJson :=
  shape_describes.roundTrips rfl

end Info

namespace Tag

def shape : Shape Tag where
  kind := .tag
  rest := .kept
  cells := [
    .always "name" Draft.scalarText .str "" rfl,
    .optional "description" Draft.scalarText .str]
  view := {
    get := fun t => (t.name, t.description, t.extensions)
    set := fun (name, description, extensions) _ => ⟨name, description, extensions⟩ }
  required := ["name"]
  empty := {}
  required_written := by
    rintro _ (_ | ⟨_, ⟨⟩⟩)
    exact ⟨_, List.mem_cons_self, rfl, fun _ => nofun⟩

theorem shape_describes : shape.Describes ofDraft toJson where
  read_eq := rfl
  write_eq := by
    funext t
    simp only [toJson, List.cons_append]
    rfl
  soundAt x := by
    simp only [shape, List.forall_mem_cons]
    exact ⟨.always x.roundTrips_scalarText, .scalarText, nofun⟩

/-- A tag that was read is read again from what is written of it. -/
theorem roundTrips : ∀ d : Draft, d.RoundTrips ofDraft toJson :=
  shape_describes.roundTrips rfl

end Tag

namespace Server

def shape : Shape Server where
  kind := .server
  rest := .kept
  cells := [
    .always "url" Draft.text .str "" rfl,
    .optional "description" Draft.scalarText .str]
  view := {
    get := fun s => (s.url, s.description, s.extensions)
    set := fun (url, description, extensions) _ => ⟨url, description, extensions⟩ }
  required := ["url"]
  empty := {}
  required_written := by
    rintro _ (_ | ⟨_, ⟨⟩⟩)
    exact ⟨_, List.mem_cons_self, rfl, fun _ => nofun⟩

theorem shape_describes : shape.Describes ofDraft toJson where
  read_eq := rfl
  write_eq := by
    funext s
    simp only [toJson, List.cons_append]
    rfl
  soundAt x := by
    simp only [shape, List.forall_mem_cons]
    exact ⟨.always x.roundTrips_text, .scalarText, nofun⟩

/-- A server that was read is read again from what is written of it. -/
theorem roundTrips : ∀ d : Draft, d.RoundTrips ofDraft toJson :=
  shape_describes.roundTrips rfl

end Server

namespace Parameter

def shape : Shape Parameter where
  kind := .parameter
  rest := .kept
  cells := [
    .optional "$ref" Draft.text .str,
    .optional "name" Draft.scalarText .str,
    .optional "in" Draft.text .str,
    .optional "description" Draft.scalarText .str,
    .optional "required" Draft.boolean .bool,
    .optional "schema" Schema.ofDraft Schema.toJson]
  view := {
    get := fun p => (p.reference, p.name, p.location, p.description, p.required, p.schema,
      p.extensions)
    set := fun (reference, name, location, description, required, schema, extensions) _ =>
      ⟨reference, name, location, description, required, schema, extensions⟩ }
  required := []
  empty := {}
  required_written := nofun

/-- The cells of a parameter are what it is read from, its schema among them. -/
theorem shape_describes : shape.Describes ofDraft toJson where
  read_eq := rfl
  write_eq := by
    funext p
    simp only [toJson, List.append_assoc]
    rfl
  soundAt x := by
    simp only [shape, List.forall_mem_cons]
    exact ⟨.text, .scalarText, .text, .scalarText, .flag,
      .optional (Schema.roundTrips x) fun _ => nofun, nofun⟩

/-- A parameter that was read is read again from what is written of it. -/
theorem roundTrips : ∀ d : Draft, d.RoundTrips ofDraft toJson :=
  shape_describes.roundTrips rfl

end Parameter

namespace MediaType

def shape : Shape MediaType where
  kind := .mediaType
  rest := .kept
  cells := [.optional "schema" Schema.ofDraft Schema.toJson]
  view := {
    get := fun m => (m.schema, m.extensions)
    set := fun (schema, extensions) _ => ⟨schema, extensions⟩ }
  required := []
  empty := {}
  required_written := nofun

theorem shape_describes : shape.Describes ofDraft toJson where
  read_eq := rfl
  write_eq := rfl
  soundAt x := by
    simp only [shape, List.forall_mem_cons]
    exact ⟨.optional (Schema.roundTrips x) fun _ => nofun, nofun⟩

/-- A media type that was read is read again from what is written of it. -/
theorem roundTrips : ∀ d : Draft, d.RoundTrips ofDraft toJson :=
  shape_describes.roundTrips rfl

end MediaType

namespace RequestBody

def shape : Shape RequestBody where
  kind := .requestBody
  rest := .kept
  cells := [
    .optional "$ref" Draft.text .str,
    .optional "description" Draft.scalarText .str,
    .map "content" MediaType.ofDraft MediaType.toJson,
    .optional "required" Draft.boolean .bool]
  view := {
    get := fun b => (b.reference, b.description, b.content, b.required, b.extensions)
    set := fun (reference, description, content, required, extensions) _ =>
      ⟨reference, description, content, required, extensions⟩ }
  required := []
  empty := {}
  required_written := nofun

/-- The content of a request body is one cell, a map of media types. -/
theorem shape_describes : shape.Describes ofDraft toJson where
  read_eq := rfl
  write_eq := by
    funext b
    simp only [toJson, List.append_assoc]
    rfl
  soundAt x := by
    simp only [shape, List.forall_mem_cons]
    exact ⟨.text, .scalarText, .map fun y _ => MediaType.roundTrips y, .flag, nofun⟩

/-- A request body that was read is read again from what is written of it. -/
theorem roundTrips : ∀ d : Draft, d.RoundTrips ofDraft toJson :=
  shape_describes.roundTrips rfl

end RequestBody

namespace Response

def shape : Shape Response where
  kind := .response
  rest := .kept
  cells := [
    .optional "$ref" Draft.text .str,
    .optional "description" Draft.scalarText .str,
    .map "content" MediaType.ofDraft MediaType.toJson]
  view := {
    get := fun r => (r.reference, r.description, r.content, r.extensions)
    set := fun (reference, description, content, extensions) _ =>
      ⟨reference, description, content, extensions⟩ }
  required := []
  empty := {}
  required_written := nofun

theorem shape_describes : shape.Describes ofDraft toJson where
  read_eq := rfl
  write_eq := by
    funext r
    simp only [toJson, List.append_assoc]
    rfl
  soundAt x := by
    simp only [shape, List.forall_mem_cons]
    exact ⟨.text, .scalarText, .map fun y _ => MediaType.roundTrips y, nofun⟩

/-- A response that was read is read again from what is written of it. -/
theorem roundTrips : ∀ d : Draft, d.RoundTrips ofDraft toJson :=
  shape_describes.roundTrips rfl

end Response

namespace Operation

def shape : Shape Operation where
  kind := .operation
  rest := .kept
  cells := [
    .list "tags" Draft.text .str,
    .optional "summary" Draft.scalarText .str,
    .optional "description" Draft.scalarText .str,
    .optional "operationId" Draft.scalarText .str,
    .list "parameters" Parameter.ofDraft Parameter.toJson,
    .optional "requestBody" RequestBody.ofDraft RequestBody.toJson,
    .map "responses" Response.ofDraft Response.toJson,
    .optional "deprecated" Draft.boolean .bool,
    .optional "security" (Draft.listOf SecurityRequirement.ofDraft)
      fun rs => .arr (rs.map SecurityRequirement.toJson)]
  view := {
    get := fun o => (o.tags, o.summary, o.description, o.operationId, o.parameters, o.requestBody,
      o.responses, o.deprecated, o.security, o.extensions)
    set := fun (tags, summary, description, operationId, parameters, requestBody, responses,
        deprecated, security, extensions) _ =>
      ⟨tags, summary, description, operationId, parameters, requestBody, responses, deprecated,
        security, extensions⟩ }
  required := []
  empty := {}
  required_written := nofun

theorem shape_describes : shape.Describes ofDraft toJson where
  read_eq := rfl
  write_eq := by
    funext o
    simp only [toJson, List.append_assoc]
    rfl
  soundAt x := by
    simp only [shape, List.forall_mem_cons]
    exact ⟨.list fun y _ => y.roundTrips_text, .scalarText, .scalarText, .scalarText,
      .list fun y _ => Parameter.roundTrips y,
      .optional (RequestBody.roundTrips x) fun _ => nofun,
      .map fun y _ => Response.roundTrips y, .flag,
      .optional (Draft.roundTrips_listOf fun y _ => SecurityRequirement.roundTrips y)
        fun _ => nofun,
      nofun⟩

/-- An operation that was read is read again from what is written of it. -/
theorem roundTrips : ∀ d : Draft, d.RoundTrips ofDraft toJson :=
  shape_describes.roundTrips rfl

end Operation

namespace PathItem

/-- The cell of the operation for a method. -/
def methodCell (m : Method) : Cell := .optional m.key Operation.ofDraft Operation.toJson

/-- The operations of a path, and then its parameters. -/
def cells : List Cell :=
  Method.all.map methodCell ++ [.list "parameters" Parameter.ofDraft Parameter.toJson]

def shape : Shape PathItem where
  kind := .pathItem
  rest := .kept
  cells := cells
  view := {
    get := fun p => (p.get, p.put, p.post, p.delete, p.options, p.head, p.patch, p.trace,
      p.parameters, p.extensions)
    set := fun (get, put, post, delete, options, head, patch, trace, parameters, extensions) _ =>
      ⟨get, put, post, delete, options, head, patch, trace, parameters, extensions⟩ }
  required := []
  empty := {}
  required_written := nofun

/-- The operations are written one after the other, each one that is there. -/
theorem operationEntries_eq (p : PathItem) :
    p.operations.map (fun o => (o.1.key, o.2.toJson)) =
      Method.all.flatMap fun m => optionalEntry m.key Operation.toJson (p.operation m) := by
  rw [operations, List.map_filterMap]
  induction Method.all with
  | nil => rfl
  | cons m ms ih =>
    rw [List.filterMap_cons, List.flatMap_cons, ← ih]
    cases p.operation m <;> rfl

/-- A path item has a cell for each method, in the order in which they are written. -/
theorem shape_describes : shape.Describes ofDraft toJson where
  read_eq := rfl
  write_eq := by
    funext p
    rw [toJson, operationEntries_eq]
    simp only [Method.all, List.flatMap_cons, List.flatMap_nil, List.append_nil, List.append_assoc]
    rfl
  soundAt x := by
    simp only [shape, cells, List.forall_mem_append, List.forall_mem_map, List.forall_mem_cons]
    exact ⟨fun m _ => .optional (Operation.roundTrips x) fun _ => nofun,
      .list fun y _ => Parameter.roundTrips y, nofun⟩

/-- A path item that was read is read again from what is written of it. -/
theorem roundTrips : ∀ d : Draft, d.RoundTrips ofDraft toJson :=
  shape_describes.roundTrips rfl

end PathItem

namespace Components

def shape : Shape Components where
  kind := .components
  rest := .kept
  cells := [
    .map "schemas" Schema.ofDraft Schema.toJson,
    .map "responses" Response.ofDraft Response.toJson,
    .map "parameters" Parameter.ofDraft Parameter.toJson,
    .map "examples" Draft.free id,
    .map "requestBodies" RequestBody.ofDraft RequestBody.toJson,
    .map "headers" Draft.free id,
    .map "securitySchemes" Draft.free id,
    .map "links" Draft.free id,
    .map "callbacks" Draft.free id]
  view := {
    get := fun c => (c.schemas, c.responses, c.parameters, c.examples, c.requestBodies, c.headers,
      c.securitySchemes, c.links, c.callbacks, c.extensions)
    set := fun (schemas, responses, parameters, examples, requestBodies, headers, securitySchemes,
        links, callbacks, extensions) _ =>
      ⟨schemas, responses, parameters, examples, requestBodies, headers, securitySchemes, links,
        callbacks, extensions⟩ }
  required := []
  empty := {}
  required_written := nofun

/-- The components have a cell for each of their nine maps. -/
theorem shape_describes : shape.Describes ofDraft toJson where
  read_eq := rfl
  write_eq := by
    have free : ∀ m : Keyed Json, m.mapValues id = m := fun m => List.map_id m
    funext c
    rw [toJson, ← free c.examples, ← free c.headers, ← free c.securitySchemes, ← free c.links,
      ← free c.callbacks]
    simp only [List.append_assoc]
    rfl
  soundAt x := by
    have free : ∀ {name : String}, (Cell.map name Draft.free id).SoundAt x :=
      .map fun y _ => y.roundTrips_free
    simp only [shape, List.forall_mem_cons]
    exact ⟨.map fun y _ => Schema.roundTrips y, .map fun y _ => Response.roundTrips y,
      .map fun y _ => Parameter.roundTrips y, free, .map fun y _ => RequestBody.roundTrips y,
      free, free, free, free, nofun⟩

/-- Components that were read are read again from what is written of them. -/
theorem roundTrips : ∀ d : Draft, d.RoundTrips ofDraft toJson :=
  shape_describes.roundTrips rfl

end Components

namespace Document

def shape : Shape Document where
  kind := .document
  rest := .kept
  cells := [
    .optional "openapi" Draft.scalarText .str,
    .optional "info" Info.ofDraft Info.toJson,
    .optional "externalDocs" Draft.free id,
    .list "servers" Server.ofDraft Server.toJson,
    .list "security" SecurityRequirement.ofDraft SecurityRequirement.toJson,
    .list "tags" Tag.ofDraft Tag.toJson,
    .always "paths" (Draft.mapOf PathItem.ofDraft) (fun m => .obj (m.mapValues PathItem.toJson))
      [] rfl,
    .optional "components" Components.ofDraft Components.toJson]
  view := {
    get := fun d => (d.openapi, d.info, d.externalDocs, d.servers, d.security, d.tags, d.paths,
      d.components, d.extensions)
    set := fun (openapi, info, externalDocs, servers, security, tags, paths, components,
        extensions) _ =>
      ⟨openapi, info, externalDocs, servers, security, tags, paths, components, extensions⟩ }
  required := []
  empty := {}
  base := 1
  required_written := nofun

/-- The cells of a document are what it is read from and what is written of it. -/
theorem shape_describes : shape.Describes ofDraft toJson where
  read_eq := rfl
  write_eq := by
    funext doc
    simp only [toJson, List.append_assoc]
    rfl
  soundAt x := by
    simp only [shape, List.forall_mem_cons]
    exact ⟨.scalarText, .optional (Info.roundTrips x) fun _ => nofun, .free,
      .list fun y _ => Server.roundTrips y, .list fun y _ => SecurityRequirement.roundTrips y,
      .list fun y _ => Tag.roundTrips y,
      .always (Draft.roundTrips_mapOf fun y _ => PathItem.roundTrips y),
      .optional (Components.roundTrips x) fun _ => nofun, nofun⟩

/-- **A document that was read is read again from what is written of it**, which is no deeper than
the draft, but for the paths, which are written in any case. -/
theorem rereads {d : Draft} {doc : Document} (h : ofDraft d = .ok doc) :
    Draft.Rereads ofDraft toJson (max d.depth 2) doc := by
  rw [shape_describes.write_eq]
  exact Shape.rereads_of_read (fun x _ => shape_describes.soundAt x) h

end Document

end ApiAssembly
