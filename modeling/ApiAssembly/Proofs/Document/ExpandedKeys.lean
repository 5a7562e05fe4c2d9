import ApiAssembly.Placeholder.Resolve
import ApiAssembly.Proofs.Document.RoundTrip
import ApiAssembly.Proofs.Merge.References
import ApiAssembly.Proofs.Reading.Expanded

/-!
# Proofs — Document — the keys of a document with its tokens replaced

The paths and the nine component maps are the maps of a document that are modelled by name
(`DocumentMap`).  In a document that is resolved, each of them has the expanded keys of the map that
was there, each at its first place (`Expander.keysOf_resolveDocument`), unless a key that is not
modelled expands to the name of a map or of the components (`Expander.KeepsMaps`).
-/

namespace ApiAssembly

/-- The maps of a document that are put in order. -/
inductive DocumentMap where
  | paths
  | components (kind : ComponentKind)

namespace Components

theorem named_cells : ∀ c ∈ shape.cells, c.Named := by
  simp only [shape, List.forall_mem_cons]
  exact ⟨.map (by decide), .map (by decide), .map (by decide), .map (by decide), .map (by decide),
    .map (by decide), .map (by decide), .map (by decide), .map (by decide), List.forall_mem_nil _⟩

/-- Each map of a components block that is expanded and read has the expanded keys, unless an
extension expands to the name of the map. -/
theorem namesOf_of_read {e : Expander} {c c' : Components}
    (h : ofDraft (c.toJson.mapText e.expand).draft = .ok c') (kind : ComponentKind)
    (hkeep : ∀ x ∈ c.extensions, e.expand x.1 ≠ kind.key) :
    c'.namesOf kind = ((c.namesOf kind).map e.expand).eraseDups := by
  obtain ⟨schemas, responses, parameters, examples, requestBodies, headers, securitySchemes, links,
    callbacks, -⟩ := shape_describes.expanded_of_read named_cells h
  cases kind with
  | schemas => exact schemas.keys_map (by decide) hkeep
  | responses => exact responses.keys_map (by decide) hkeep
  | parameters => exact parameters.keys_map (by decide) hkeep
  | examples => exact examples.keys_map (by decide) hkeep
  | requestBodies => exact requestBodies.keys_map (by decide) hkeep
  | headers => exact headers.keys_map (by decide) hkeep
  | securitySchemes => exact securitySchemes.keys_map (by decide) hkeep
  | links => exact links.keys_map (by decide) hkeep
  | callbacks => exact callbacks.keys_map (by decide) hkeep

end Components

namespace Document

/-- The keys of a map of a document, in order. -/
def keysOf (d : Document) : DocumentMap → List String
  | .paths           => d.paths.keys
  | .components kind => d.componentsOrEmpty.namesOf kind

theorem named_cells : ∀ c ∈ shape.cells, c.Named := by
  simp only [shape, List.forall_mem_cons]
  exact ⟨.optional (by decide), .optional (by decide), .optional (by decide), .list (by decide),
    .list (by decide), .list (by decide), .always (by decide), .optional (by decide),
    List.forall_mem_nil _⟩

/-- A document is resolved cell by cell. -/
theorem expanded_of_resolveDocument {e : Expander} {d r : Document}
    (h : e.resolveDocument d = .ok r) :
    Row.Expanded e d.extensions shape.cells (shape.view.get d) (shape.view.get r) :=
  shape_describes.expanded_of_read named_cells h

end Document

namespace Expander

variable {e : Expander} {d r : Document}

/-- No key that is not modelled expands to that of the paths or the components, and none of the
components block to that of a component map. -/
structure KeepsMaps (e : Expander) (d : Document) : Prop where
  document : ∀ x ∈ d.extensions, e.expand x.1 ≠ "paths" ∧ e.expand x.1 ≠ "components"
  components : ∀ x ∈ d.componentsOrEmpty.extensions, ∀ kind : ComponentKind, e.expand x.1 ≠ kind.key

theorem keys_paths_resolveDocument (h : e.resolveDocument d = .ok r)
    (hkeep : ∀ x ∈ d.extensions, e.expand x.1 ≠ "paths") :
    r.paths.keys = (d.paths.keys.map e.expand).eraseDups := by
  obtain ⟨-, -, -, -, -, -, hpaths, -⟩ := Document.expanded_of_resolveDocument h
  have hread : Draft.mapOf PathItem.ofDraft
      ((Json.obj (d.paths.mapValues PathItem.toJson)).mapText e.expand).draft = .ok r.paths :=
    hpaths.read_eq_ok (.always (by decide)) hkeep rfl
  rw [Draft.keys_of_mapOf_mapText hread, e.unlessBlank_expand, Keyed.keys_mapValues]

/-- The components block is expanded and read, where there is one. -/
theorem read_components_of_resolveDocument (h : e.resolveDocument d = .ok r)
    (hkeep : ∀ x ∈ d.extensions, e.expand x.1 ≠ "components") :
    (d.components = none ∧ r.components = none) ∨ ∃ c c', d.components = some c ∧
      r.components = some c' ∧ Components.ofDraft (c.toJson.mapText e.expand).draft = .ok c' := by
  obtain ⟨-, -, -, -, -, -, -, hcell, -⟩ := Document.expanded_of_resolveDocument h
  replace hcell : (Cell.optional "components" Components.ofDraft Components.toJson).Expanded e
      d.extensions d.components r.components := hcell
  cases hd : d.components with
  | none =>
    rw [hd] at hcell
    exact .inl ⟨rfl, hcell.eq_absent hkeep rfl⟩
  | some c =>
    rw [hd] at hcell
    obtain ⟨c', hr, hread⟩ := hcell.exists_of_optional (by decide) hkeep nofun
    exact .inr ⟨c, c', rfl, hr, hread⟩

/-- **A resolved document has the expanded keys in each of its maps**, each at its first place. -/
theorem keysOf_resolveDocument (h : e.resolveDocument d = .ok r) (hkeep : e.KeepsMaps d)
    (m : DocumentMap) : r.keysOf m = ((d.keysOf m).map e.expand).eraseDups := by
  cases m with
  | paths => exact keys_paths_resolveDocument h fun x hx => (hkeep.document x hx).1
  | components kind =>
    rcases read_components_of_resolveDocument h fun x hx => (hkeep.document x hx).2 with
      ⟨hd, hr⟩ | ⟨c, c', hd, hr, hread⟩
    · simp only [Document.keysOf, Document.componentsOrEmpty, hd, hr]
      cases kind <;> rfl
    · have hmaps := hkeep.components
      rw [Document.componentsOrEmpty, hd] at hmaps
      simp only [Document.keysOf, Document.componentsOrEmpty, hd, hr]
      exact Components.namesOf_of_read hread kind fun x hx => hmaps x hx kind

end Expander

end ApiAssembly
