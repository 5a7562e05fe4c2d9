import ApiAssembly.Schema.Basic

/-!
# Document — an API description

The objects of an API description as far as the assembly reasons about them. Every object keeps
the keys that are not modelled, in their order, among its extensions. Maps keep the order of their
keys.
-/

namespace ApiAssembly

/-- Scheme names with the scopes that each of them needs. -/
abbrev SecurityRequirement := Keyed (List String)

/-- What a document says about itself. -/
structure Info where
  title : String := ""
  version : String := ""
  description : Option String := none
  extensions : Keyed Json := []

structure Tag where
  name : String := ""
  description : Option String := none
  extensions : Keyed Json := []

structure Server where
  url : String := ""
  description : Option String := none
  extensions : Keyed Json := []

/-- A parameter of an operation or a path; a reference to one has neither name nor location. -/
structure Parameter where
  reference : Option String := none
  name : Option String := none
  location : Option String := none
  description : Option String := none
  required : Option Bool := none
  schema : Option Schema := none
  extensions : Keyed Json := []

/-- A body in one media type. -/
structure MediaType where
  schema : Option Schema := none
  extensions : Keyed Json := []

structure RequestBody where
  reference : Option String := none
  description : Option String := none
  content : Keyed MediaType := []
  required : Option Bool := none
  extensions : Keyed Json := []

structure Response where
  reference : Option String := none
  description : Option String := none
  content : Keyed MediaType := []
  extensions : Keyed Json := []

structure Operation where
  tags : List String := []
  summary : Option String := none
  description : Option String := none
  operationId : Option String := none
  parameters : List Parameter := []
  requestBody : Option RequestBody := none
  responses : Keyed Response := []
  deprecated : Option Bool := none
  security : Option (List SecurityRequirement) := none
  extensions : Keyed Json := []

/-- The methods that an operation can be called by. -/
inductive Method where
  | get | put | post | delete | options | head | patch | trace
  deriving DecidableEq

/-- One path with at most one operation for each method. -/
structure PathItem where
  get : Option Operation := none
  put : Option Operation := none
  post : Option Operation := none
  delete : Option Operation := none
  options : Option Operation := none
  head : Option Operation := none
  patch : Option Operation := none
  trace : Option Operation := none
  parameters : List Parameter := []
  extensions : Keyed Json := []

/-- The named objects that the rest of a document refers to. -/
structure Components where
  schemas : Keyed Schema := []
  responses : Keyed Response := []
  parameters : Keyed Parameter := []
  examples : Keyed Json := []
  requestBodies : Keyed RequestBody := []
  headers : Keyed Json := []
  securitySchemes : Keyed Json := []
  links : Keyed Json := []
  callbacks : Keyed Json := []
  extensions : Keyed Json := []

structure Document where
  openapi : Option String := none
  info : Option Info := none
  externalDocs : Option Json := none
  servers : List Server := []
  security : List SecurityRequirement := []
  tags : List Tag := []
  paths : Keyed PathItem := []
  components : Option Components := none
  extensions : Keyed Json := []

namespace Method

/-- All methods, in the order in which operations are visited and written. -/
def all : List Method := [.get, .put, .post, .delete, .options, .head, .patch, .trace]

/-- The name of a method, in capitals. -/
def name : Method → String
  | .get     => "GET"
  | .put     => "PUT"
  | .post    => "POST"
  | .delete  => "DELETE"
  | .options => "OPTIONS"
  | .head    => "HEAD"
  | .patch   => "PATCH"
  | .trace   => "TRACE"

/-- The key of a method in a path item. -/
def key : Method → String
  | .get     => "get"
  | .put     => "put"
  | .post    => "post"
  | .delete  => "delete"
  | .options => "options"
  | .head    => "head"
  | .patch   => "patch"
  | .trace   => "trace"

def ofName? (name : String) : Option Method := all.find? fun m => m.name == name

end Method

namespace PathItem

/-- The operation for a method. -/
def operation (p : PathItem) : Method → Option Operation
  | .get     => p.get
  | .put     => p.put
  | .post    => p.post
  | .delete  => p.delete
  | .options => p.options
  | .head    => p.head
  | .patch   => p.patch
  | .trace   => p.trace

/-- Sets the operation for a method. -/
def setOperation (p : PathItem) (m : Method) (op : Option Operation) : PathItem :=
  match m with
  | .get     => { p with get := op }
  | .put     => { p with put := op }
  | .post    => { p with post := op }
  | .delete  => { p with delete := op }
  | .options => { p with options := op }
  | .head    => { p with head := op }
  | .patch   => { p with patch := op }
  | .trace   => { p with trace := op }

/-- The operations that are there, in the order of the methods. -/
def operations (p : PathItem) : List (Method × Operation) :=
  Method.all.filterMap fun m => (p.operation m).map fun op => (m, op)

/-- Applies a function to every operation that is there. -/
def mapOperations (f : Operation → Operation) (p : PathItem) : PathItem :=
  { p with
    get := p.get.map f
    put := p.put.map f
    post := p.post.map f
    delete := p.delete.map f
    options := p.options.map f
    head := p.head.map f
    patch := p.patch.map f
    trace := p.trace.map f }

@[simp] theorem operation_setOperation_self (p : PathItem) (m : Method) (op : Option Operation) :
    (p.setOperation m op).operation m = op := by
  cases m <;> rfl

theorem operation_setOperation_of_ne (p : PathItem) {m n : Method} (op : Option Operation)
    (h : m ≠ n) : (p.setOperation m op).operation n = p.operation n := by
  cases m <;> cases n <;> first | rfl | exact absurd rfl h

end PathItem

namespace Parameter

/-- What makes two parameters of an operation the same one. -/
def identity (p : Parameter) : Option String × Option String × Option String :=
  (p.name, p.location, p.reference)

end Parameter

namespace Components

/-- Whether none of the nine maps has an entry; extensions do not count. -/
def isEmpty (c : Components) : Bool :=
  c.schemas.isEmpty && c.responses.isEmpty && c.parameters.isEmpty && c.examples.isEmpty &&
    c.requestBodies.isEmpty && c.headers.isEmpty && c.securitySchemes.isEmpty &&
    c.links.isEmpty && c.callbacks.isEmpty

end Components

namespace Document

/-- The components block, an empty one where there is none. -/
def componentsOrEmpty (d : Document) : Components := d.components.getD {}

/-- The operations of all paths, with their method and path. -/
def operations (d : Document) : List (Method × String × Operation) :=
  d.paths.flatMap fun entry => entry.2.operations.map fun o => (o.1, entry.1, o.2)

end Document

end ApiAssembly
