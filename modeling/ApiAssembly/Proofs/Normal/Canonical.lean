import ApiAssembly.Normal.Document
import ApiAssembly.Output.Format
import ApiAssembly.Proofs.Keyed.Entries
import ApiAssembly.Proofs.Normal.Used

/-!
# Proofs — Normal — the normal form does not see the order of entries

Documents with the same entries in their paths and component maps, in any order, have one normal
form.  All ten maps are put in order in the first phase of normalizing, and from there on the two
documents are one (`normalizeParts_eq_of_sameEntries`): what is found to be unused, and what is
written, is the same (`canonical_normalize`).
-/

namespace ApiAssembly

/-- Components with the same entries in each of the nine maps, which are otherwise equal. -/
structure Components.SameEntries (c c' : Components) : Prop where
  schemas : c.schemas.SameEntries c'.schemas
  responses : c.responses.SameEntries c'.responses
  parameters : c.parameters.SameEntries c'.parameters
  examples : c.examples.SameEntries c'.examples
  requestBodies : c.requestBodies.SameEntries c'.requestBodies
  headers : c.headers.SameEntries c'.headers
  securitySchemes : c.securitySchemes.SameEntries c'.securitySchemes
  links : c.links.SameEntries c'.links
  callbacks : c.callbacks.SameEntries c'.callbacks
  extensions : c.extensions = c'.extensions

/-- Documents with the same entries in their paths and component maps, which are otherwise
equal. -/
structure Document.SameEntries (d d' : Document) : Prop where
  paths : d.paths.SameEntries d'.paths
  components : Option.Rel Components.SameEntries d.components d'.components
  rest : { d with paths := [], components := none } = { d' with paths := [], components := none }

theorem Components.SameEntries.refl (c : Components) : c.SameEntries c := by
  constructor <;> first | rfl | exact .refl _

/-- Values that go by the key alone do not see the order of entries. -/
theorem Keyed.sortKeys_mapValues_eq {α β : Type} {m m' : Keyed α} (h : m.SameEntries m')
    (f : α → β) : (m.mapValues f).sortKeys = (m'.mapValues f).sortKeys :=
  sortKeys_eq_iff.mpr (h.mapValues f)

theorem Components.normalize_eq_of_sameEntries {c c' : Components} (h : c.SameEntries c') :
    c.normalize = c'.normalize := by
  rw [normalize, normalize, Components.mk.injEq]
  exact ⟨Keyed.sortKeys_mapValues_eq h.schemas _, Keyed.sortKeys_mapValues_eq h.responses _,
    Keyed.sortKeys_mapValues_eq h.parameters _, Keyed.sortKeys_eq_iff.mpr h.examples,
    Keyed.sortKeys_mapValues_eq h.requestBodies _, Keyed.sortKeys_eq_iff.mpr h.headers,
    Keyed.sortKeys_eq_iff.mpr h.securitySchemes, Keyed.sortKeys_eq_iff.mpr h.links,
    Keyed.sortKeys_eq_iff.mpr h.callbacks, h.extensions⟩

namespace Document

variable {d d' : Document}

/-- Documents that differ in their paths alone. -/
theorem SameEntries.of_paths (hp : d.paths.SameEntries d'.paths)
    (h : { d with paths := [] } = { d' with paths := [] }) : d.SameEntries d' where
  paths := hp
  components := by
    have hc := congrArg Document.components h
    dsimp only at hc
    rw [hc]
    cases d'.components with
    | none => exact .none
    | some c => exact .some (Components.SameEntries.refl c)
  rest := congrArg (fun x : Document => { x with components := none }) h

/-- After the first phase of normalizing there is one document. -/
theorem normalizeParts_eq_of_sameEntries (h : d.SameEntries d') :
    d.normalizeParts = d'.normalizeParts := by
  have hp : d.paths.sortKeys = d'.paths.sortKeys := Keyed.sortKeys_eq_iff.mpr h.paths
  have hc : d.components.map Components.normalize = d'.components.map Components.normalize := by
    have hrel := h.components
    generalize d.components = c at hrel ⊢
    generalize d'.components = c' at hrel ⊢
    cases hrel with
    | none => rfl
    | some hc => exact congrArg some (Components.normalize_eq_of_sameEntries hc)
  have hrest := h.rest
  rw [Document.mk.injEq] at hrest
  obtain ⟨ho, hi, he, hs, hq, ht, -, -, hx⟩ := hrest
  rw [normalizeParts, normalizeParts, Document.mk.injEq, hp]
  exact ⟨ho, hi, he, hs, hq, ht, rfl, hc, hx⟩

theorem normalize_eq_of_sameEntries (h : d.SameEntries d') : d.normalize = d'.normalize := by
  rw [normalize, normalize, normalizeParts_eq_of_sameEntries h]

/-- **The normal form is canonical.**  Documents with the same entries in their paths and component
maps have one normal form, so one text in each format, and the same schemas are kept. -/
theorem canonical_normalize (h : d.SameEntries d') :
    d.normalize = d'.normalize ∧
      (∀ f : OutputFormat, f.render d.normalize = f.render d'.normalize) ∧
      ∀ n, n ∈ d.normalize.schemaNames ↔ n ∈ d'.normalize.schemaNames := by
  have hd := normalize_eq_of_sameEntries h
  exact ⟨hd, fun f => by rw [hd], fun n => by rw [hd]⟩

/-- A document with two paths and two schemas, of which one refers to the other. -/
def petsDocument : Document where
  paths := [("/pets", { get := some {} }), ("/owners", {})]
  components := some {
    schemas := [
      ("Pet", { own := { reference := some (schemaReference "Owner") } }),
      ("Owner", { own := { title := some "O" } })] }
  extensions := [("x-model", .str (schemaReference "Pet"))]

/-- The same document with its paths and schemas the other way round. -/
def turnedPetsDocument : Document :=
  { petsDocument with
    paths := petsDocument.paths.reverse
    components := petsDocument.components.map fun c => { c with schemas := c.schemas.reverse } }

theorem sameEntries_petsDocument : petsDocument.SameEntries turnedPetsDocument where
  paths := (Keyed.sameEntries_iff_perm (by decide)).mpr (List.reverse_perm _).symm
  components :=
    .some { Components.SameEntries.refl _ with
      schemas := (Keyed.sameEntries_iff_perm (by decide)).mpr (List.reverse_perm _).symm }
  rest := rfl

/-- Both orders of its paths and schemas have one normal form. -/
theorem normalize_petsDocument :
    petsDocument.paths.keys ≠ turnedPetsDocument.paths.keys ∧
      petsDocument.SameEntries turnedPetsDocument ∧
      petsDocument.normalize = turnedPetsDocument.normalize :=
  ⟨by decide, sameEntries_petsDocument, (canonical_normalize sameEntries_petsDocument).1⟩

end Document

end ApiAssembly
