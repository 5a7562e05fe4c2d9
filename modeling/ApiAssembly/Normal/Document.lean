import ApiAssembly.Normal.Schema
import ApiAssembly.Normal.Unused

/-!
# Normal — Document — the normal form of documents

The paths and the nine component maps are in increasing order of their keys, every schema slot is
in normal form, component schemas that nothing refers to are gone, and so is a components block
whose maps are all empty.
-/

namespace ApiAssembly

/-- Normalizes the schema of a parameter. -/
def Parameter.normalize (p : Parameter) : Parameter :=
  { p with schema := p.schema.map Schema.normalSlot }

def MediaType.normalize (m : MediaType) : MediaType :=
  { m with schema := m.schema.map Schema.normalSlot }

def RequestBody.normalize (b : RequestBody) : RequestBody :=
  { b with content := b.content.mapValues MediaType.normalize }

def Response.normalize (r : Response) : Response :=
  { r with content := r.content.mapValues MediaType.normalize }

def Operation.normalize (o : Operation) : Operation :=
  { o with
    parameters := o.parameters.map Parameter.normalize
    requestBody := o.requestBody.map RequestBody.normalize
    responses := o.responses.mapValues Response.normalize }

def PathItem.normalize (p : PathItem) : PathItem :=
  { p.mapOperations Operation.normalize with
    parameters := p.parameters.map Parameter.normalize }

def Components.normalize (c : Components) : Components :=
  { c with
    schemas := (c.schemas.mapValues Schema.normalSlot).sortKeys
    responses := (c.responses.mapValues Response.normalize).sortKeys
    parameters := (c.parameters.mapValues Parameter.normalize).sortKeys
    examples := c.examples.sortKeys
    requestBodies := (c.requestBodies.mapValues RequestBody.normalize).sortKeys
    headers := c.headers.sortKeys
    securitySchemes := c.securitySchemes.sortKeys
    links := c.links.sortKeys
    callbacks := c.callbacks.sortKeys }

namespace Document

/-- Normalizes the slots and sorts the maps. -/
def normalizeParts (d : Document) : Document :=
  { d with
    paths := d.paths.sortKeys.mapValues PathItem.normalize
    components := d.components.map Components.normalize }

/-- Drops a components block whose maps are all empty. -/
def dropEmptyComponents (d : Document) : Document :=
  { d with components := d.components.filter fun c => !c.isEmpty }

/-- The normal form of a document. -/
def normalize (d : Document) : Document := d.normalizeParts.dropUnused.dropEmptyComponents

end Document

end ApiAssembly
