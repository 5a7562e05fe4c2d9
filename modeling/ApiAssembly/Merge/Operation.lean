import ApiAssembly.Document.Basic
import ApiAssembly.SortedTexts

/-!
# Merge — Operation — two descriptions of one operation

The first description wins: a value that it has stays, and the second one only fills in what is
missing. Maps are united by key and parameters by name, location and reference; a response or a
request body that both have is merged field by field in the same way. Tags are the exception: they
become the sorted union of both.
-/

namespace ApiAssembly

/-- Adds a parameter unless one of the same identity is there. -/
def addParameter (known : List Parameter) (p : Parameter) : List Parameter :=
  if known.any fun q => q.identity == p.identity then known else known ++ [p]

/-- The parameters of both lists, each identity once. -/
def mergeParameters (a b : List Parameter) : List Parameter := (a ++ b).foldl addParameter []

def RequestBody.merge (a b : RequestBody) : RequestBody where
  reference := a.reference.or b.reference
  description := a.description.or b.description
  content := a.content.extendNew b.content
  required := a.required.or b.required
  extensions := a.extensions.extendNew b.extensions

def Response.merge (a b : Response) : Response where
  reference := a.reference.or b.reference
  description := a.description.or b.description
  content := a.content.extendNew b.content
  extensions := a.extensions.extendNew b.extensions

/-- Merges two values that may be absent; one that stands alone is taken as it is. -/
def mergeOptional {α : Type} (merge : α → α → α) : Option α → Option α → Option α
  | some a, some b => some (merge a b)
  | some a, none   => some a
  | none,   b      => b

/-- Adds the response for a status, merging it into one that is there. -/
def addResponse (known : Keyed Response) (status : String) (r : Response) : Keyed Response :=
  match known.get? status with
  | some old => known.insert status (old.merge r)
  | none     => known.insert status r

/-- The responses of both maps. -/
def mergeResponses (a b : Keyed Response) : Keyed Response :=
  b.foldl (fun known entry => addResponse known entry.1 entry.2) a

def Operation.merge (a b : Operation) : Operation where
  tags := sortedTexts (a.tags ++ b.tags)
  summary := a.summary.or b.summary
  description := a.description.or b.description
  operationId := a.operationId.or b.operationId
  parameters := mergeParameters a.parameters b.parameters
  requestBody := mergeOptional RequestBody.merge a.requestBody b.requestBody
  responses := mergeResponses a.responses b.responses
  deprecated := a.deprecated.or b.deprecated
  security := a.security.or b.security
  extensions := a.extensions.extendNew b.extensions

end ApiAssembly
