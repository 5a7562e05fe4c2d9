import ApiAssembly.Proofs.Document.Texts
import ApiAssembly.Proofs.Normal.Stability

/-!
# Proofs — Normal — no reference is left dangling

Whether a component schema is used is decided by looking for the quoted reference to it in what is
written of the rest.  Every text of an object is written quoted, so a text that is such a reference
is found wherever it stands (`refersTo_of_mem_texts`), and a normalized document that has a
reference to one of its schemas among its texts has the schema
(`mem_schemaNames_normalize_of_mem_texts`).
-/

namespace ApiAssembly

/-- A text of a value is quoted in what is written of it. -/
theorem refersTo_of_mem_texts {j : Json} {n : String} (h : schemaReference n ∈ j.texts) :
    refersTo j.chars n :=
  (Text.occurs_iff _ _).mpr (Json.quote_infix_chars h)

namespace Document

variable {d : Document}

/-! ### The texts outside of the schemas -/

theorem outerTexts_withoutSchemas (d : Document) : d.withoutSchemas.outerTexts = d.outerTexts := by
  rw [outerTexts, outerTexts, withoutSchemas]
  cases d.components <;> rfl

theorem outerTexts_dropUnused (d : Document) : d.dropUnused.outerTexts = d.outerTexts := by
  rw [← outerTexts_withoutSchemas, withoutSchemas_dropUnused, outerTexts_withoutSchemas]

/-- A block without components has no texts but its keywords, which may go. -/
theorem outerTexts_dropEmptyComponents (d : Document) :
    d.dropEmptyComponents.outerTexts ⊆ d.outerTexts := by
  rcases d.dropEmptyComponents_cases with h | h
  · intro t ht
    simp only [outerTexts, List.mem_append] at ht ⊢
    rw [h] at ht
    rcases ht with (ht | ht) | ht
    · exact .inl (.inl ht)
    · simp at ht
    · exact .inr ht
  · rw [h]
    exact List.Subset.refl _

/-- Dropping schemas brings in no text outside of them. -/
theorem outerTexts_normalize (d : Document) :
    d.normalize.outerTexts ⊆ d.normalizeParts.outerTexts := by
  rw [← outerTexts_dropUnused d.normalizeParts]
  exact outerTexts_dropEmptyComponents _

/-! ### The schemas of a normalized document -/

/-- Normalizing the parts keeps the names of schemas. -/
theorem mem_schemaNames_normalizeParts {n : String} :
    n ∈ d.normalizeParts.schemaNames ↔ n ∈ d.schemaNames := by
  rw [schemaNames, schemaNames, componentsOrEmpty, componentsOrEmpty, normalizeParts]
  cases d.components with
  | none => rfl
  | some c =>
    show n ∈ c.normalize.schemas.keys ↔ n ∈ c.schemas.keys
    rw [← Keyed.keys_mapValues Schema.normalSlot c.schemas]
    exact ((Keyed.sortKeys_perm _).map Prod.fst).mem_iff

/-- A normalized document has the schemas that are used in the normalized parts. -/
theorem mem_schemas_normalize {n : String} {s : Schema} :
    (n, s) ∈ d.normalize.componentsOrEmpty.schemas ↔
      (n, s) ∈ d.normalizeParts.componentsOrEmpty.schemas ∧ d.normalizeParts.Uses n := by
  rw [normalize, schemas_dropEmptyComponents, mem_schemas_dropUnused]

/-- A schema whose reference is a text outside of the schemas is used. -/
theorem uses_of_mem_outerTexts {n : String} (hn : n ∈ d.schemaNames)
    (h : schemaReference n ∈ d.outerTexts) : d.Uses n := by
  refine .outside hn (refersTo_of_mem_texts (outerTexts_subset_toJson _ ?_))
  rwa [outerTexts_withoutSchemas]

/-- A schema whose reference is a text of the normalized document is used. -/
theorem uses_of_mem_texts_normalize {n : String} (hn : n ∈ d.schemaNames)
    (h : schemaReference n ∈ d.normalize.texts) : d.normalizeParts.Uses n := by
  have hn : n ∈ d.normalizeParts.schemaNames := mem_schemaNames_normalizeParts.mpr hn
  rcases List.mem_append.mp h with h | h
  · exact uses_of_mem_outerTexts hn (d.outerTexts_normalize h)
  · obtain ⟨⟨m, s⟩, hm, h⟩ := List.mem_flatMap.mp h
    obtain ⟨hm, hu⟩ := mem_schemas_normalize.mp hm
    exact .schema hu hm hn (refersTo_of_mem_texts (s.texts_subset_toJson h))

/-- **No dangling references.**  Where a normalized document has, among its texts at any depth, the
reference to a schema that the document had, it still has the schema. -/
theorem mem_schemaNames_normalize_of_mem_texts {n : String} (hn : n ∈ d.schemaNames)
    (h : schemaReference n ∈ d.normalize.texts) : n ∈ d.normalize.schemaNames :=
  mem_schemaNames_normalize.mpr (uses_of_mem_texts_normalize hn h)

/-- A document that refers, in an extension, to a schema whose name has to be escaped. -/
def quotedNameDocument : Document :=
  { components := some { schemas := [("a\"b", {})] }
    extensions := [("x-model", .obj [("$ref", .str (schemaReference "a\"b"))])] }

theorem extensions_normalize (d : Document) : d.normalize.extensions = d.extensions := by
  rw [normalize, dropEmptyComponents, dropUnused_eq]
  rfl

theorem quotedNameDocument_reference :
    schemaReference "a\"b" ∈ quotedNameDocument.normalize.texts := by
  refine List.mem_append_left _ (List.mem_append_right _ ?_)
  rw [extensions_normalize]
  decide

/-- The schema of the escaped name is kept. -/
theorem mem_schemaNames_normalize_quotedNameDocument :
    "a\"b" ∈ quotedNameDocument.schemaNames ∧
      schemaReference "a\"b" ∈ quotedNameDocument.normalize.texts ∧
      "a\"b" ∈ quotedNameDocument.normalize.schemaNames :=
  ⟨by decide, quotedNameDocument_reference,
    mem_schemaNames_normalize_of_mem_texts (by decide) quotedNameDocument_reference⟩

end Document

end ApiAssembly
