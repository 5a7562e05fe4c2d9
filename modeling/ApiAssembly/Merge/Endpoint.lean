import ApiAssembly.Endpoint
import ApiAssembly.Merge.Operation

/-!
# Merge — Endpoint — endpoints in a document

An endpoint goes into the slot of its path and method. An operation that is there already is merged
with the one of the endpoint and not replaced; a path that is not there yet goes to the end.
-/

namespace ApiAssembly

/-- Puts an operation into the slot of a method. -/
def PathItem.addOperation (p : PathItem) (m : Method) (op : Operation) : PathItem :=
  p.setOperation m (mergeOptional Operation.merge (p.operation m) (some op))

namespace Document

/-- Adds the operation of an endpoint. -/
def addEndpoint (d : Document) (e : Endpoint) : Document :=
  { d with paths :=
      d.paths.insert e.url (((d.paths.get? e.url).getD {}).addOperation e.method e.operation) }

/-- Adds the operations of endpoints, in order. -/
def addEndpoints (d : Document) (es : List Endpoint) : Document := es.foldl addEndpoint d

/-- Endpoints come into the paths of a document and nowhere else. -/
theorem addEndpoints_but_paths (d : Document) (es : List Endpoint) :
    { d.addEndpoints es with paths := [] } = { d with paths := [] } := by
  induction es generalizing d with
  | nil => rfl
  | cons e es ih => exact ih (d.addEndpoint e)

end Document

end ApiAssembly
