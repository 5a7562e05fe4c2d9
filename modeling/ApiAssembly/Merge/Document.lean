import ApiAssembly.Document.Basic
import ApiAssembly.Warning

/-!
# Merge — Document — a partial document in a base document

Tags, servers and security requirements of the partial document come after those of the base. Its
paths, schemas, security schemes and extensions are written over those of the base, a path as a
whole, which is reported. Its external documentation replaces the one of the base; its version and
info, and the other component maps, are not taken over.
-/

namespace ApiAssembly

/-- A schema that becomes a component takes the key as its name unless it has one. -/
def Schema.named (key : String) (s : Schema) : Schema :=
  { s with own := { s.own with name := s.own.name.or (some key) } }

theorem keys_map_named (m : Keyed Schema) :
    Keyed.keys (m.map fun entry => (entry.1, entry.2.named entry.1)) = m.keys := by
  rw [Keyed.keys, List.map_map]
  rfl

/-- Writes the schemas and security schemes of a components block over another. -/
def Components.mergeFrom (c new : Components) : Components :=
  { c with
    schemas := c.schemas.extend (new.schemas.map fun entry => (entry.1, entry.2.named entry.1))
    securitySchemes := c.securitySchemes.extend new.securitySchemes }

namespace Document

/-- The paths that two documents both declare, in the order of the second. -/
def commonPaths (d new : Document) : List String := new.paths.keys.filter fun k => d.paths.has k

/-- Copies a partial document into a base document. -/
def mergeFrom (d new : Document) : Document :=
  { d with
    tags := d.tags ++ new.tags
    servers := d.servers ++ new.servers
    security := d.security ++ new.security
    paths := d.paths.extend new.paths
    components :=
      match new.components with
      | some c => some (d.componentsOrEmpty.mergeFrom c)
      | none   => d.components
    externalDocs := new.externalDocs.or d.externalDocs
    extensions := d.extensions.extend new.extensions }

/-- The components of a document that a partial one is merged into, whether it has some or not. -/
theorem componentsOrEmpty_mergeFrom (d new : Document) :
    (d.mergeFrom new).componentsOrEmpty = d.componentsOrEmpty.mergeFrom new.componentsOrEmpty := by
  simp only [mergeFrom, componentsOrEmpty]
  cases new.components <;> rfl

/-- Copies a partial document into a base document and reports the paths that it replaces. -/
def merge (d new : Document) : Document × List Warning :=
  (d.mergeFrom new, (d.commonPaths new).map .duplicatePath)

/-- Merges partial documents into a base document, in order. -/
def mergeAll (d : Document) : List Document → Document × List Warning
  | []          => (d, [])
  | new :: rest =>
    let (d, ws) := d.merge new
    let (d, more) := mergeAll d rest
    (d, ws ++ more)

theorem exists_of_mem_merge {d new : Document} {w : Warning} (h : w ∈ (d.merge new).2) :
    ∃ path, w = .duplicatePath path := by
  obtain ⟨path, -, rfl⟩ := List.mem_map.mp h
  exact ⟨path, rfl⟩

/-- Merging reports paths, and nothing else. -/
theorem exists_of_mem_mergeAll {d : Document} {more : List Document} {w : Warning}
    (h : w ∈ (d.mergeAll more).2) : ∃ path, w = .duplicatePath path := by
  induction more generalizing d with
  | nil => exact absurd h List.not_mem_nil
  | cons new more ih => exact (List.mem_append.mp h).elim exists_of_mem_merge ih

end Document

end ApiAssembly
