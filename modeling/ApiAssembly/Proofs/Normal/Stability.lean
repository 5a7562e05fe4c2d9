import ApiAssembly.Proofs.Normal.Schema
import ApiAssembly.Proofs.Normal.Slots
import ApiAssembly.Proofs.Normal.Used

/-!
# Proofs — Normal — which documents a second normalization leaves alone

Normalizing puts maps in order and drops schemas and blocks for good: a second run finds the maps in
order (`ordered_normalize`), every kept schema still in use (`dropUnused_dropUnused`) and a
components block with something in it.  What is left to change are the schema slots that are still
there, the *live* ones.  So a second run changes nothing exactly when no node of a live slot bares a
wrapper (`normalize_normalize_iff`), and there are documents where one does
(`normalize_describedTwiceDocument_ne`).
-/

namespace ApiAssembly

/-! ### Components in order -/

namespace Components

/-- The slots of the components that are no schemas. -/
def outerSlots (c : Components) : List Schema :=
  c.responses.flatMap (fun entry => entry.2.slots) ++
    c.parameters.flatMap (fun entry => entry.2.slots) ++
    c.requestBodies.flatMap fun entry => entry.2.slots

/-- All nine maps are in the order of their keys. -/
structure Ordered (c : Components) : Prop where
  schemas : c.schemas.Sorted
  responses : c.responses.Sorted
  parameters : c.parameters.Sorted
  examples : c.examples.Sorted
  requestBodies : c.requestBodies.Sorted
  headers : c.headers.Sorted
  securitySchemes : c.securitySchemes.Sorted
  links : c.links.Sorted
  callbacks : c.callbacks.Sorted

/-- The nine maps of normalized components are in order. -/
theorem ordered_normalize (c : Components) : c.normalize.Ordered where
  schemas := Keyed.sorted_sortKeys _
  responses := Keyed.sorted_sortKeys _
  parameters := Keyed.sorted_sortKeys _
  examples := Keyed.sorted_sortKeys _
  requestBodies := Keyed.sorted_sortKeys _
  headers := Keyed.sorted_sortKeys _
  securitySchemes := Keyed.sorted_sortKeys _
  links := Keyed.sorted_sortKeys _
  callbacks := Keyed.sorted_sortKeys _

/-- Only values are left to change in components that are in order. -/
theorem normalize_eq_self_iff {c : Components} (h : c.Ordered) :
    c.normalize = c ↔ (∀ entry ∈ c.schemas, entry.2.normalSlot = entry.2) ∧
      (∀ entry ∈ c.responses, entry.2.normalize = entry.2) ∧
      (∀ entry ∈ c.parameters, entry.2.normalize = entry.2) ∧
      ∀ entry ∈ c.requestBodies, entry.2.normalize = entry.2 := by
  have hs := h.schemas.mapValues Schema.normalSlot
  have hr := h.responses.mapValues Response.normalize
  have hp := h.parameters.mapValues Parameter.normalize
  have hb := h.requestBodies.mapValues RequestBody.normalize
  obtain ⟨_, _, _, _, _, _, _, _, _, _⟩ := c
  rw [normalize, Components.mk.injEq]
  simp only [Keyed.sortKeys_of_sorted hs, Keyed.sortKeys_of_sorted hr,
    Keyed.sortKeys_of_sorted hp, Keyed.sortKeys_of_sorted hb, Keyed.sortKeys_of_sorted h.examples,
    Keyed.sortKeys_of_sorted h.headers, Keyed.sortKeys_of_sorted h.securitySchemes,
    Keyed.sortKeys_of_sorted h.links, Keyed.sortKeys_of_sorted h.callbacks,
    Keyed.mapValues_eq_self_iff, true_and, and_true]

/-- Dropping schemas keeps the order. -/
theorem Ordered.filter_schemas {c : Components} (h : c.Ordered) (p : String × Schema → Bool) :
    Ordered { c with schemas := c.schemas.filter p } :=
  { h with schemas := h.schemas.filter p }

theorem normalize_of_isEmpty {c : Components} (h : c.isEmpty) : c.normalize = c := by
  obtain ⟨schemas, responses, parameters, examples, requestBodies, headers, securitySchemes, links,
    callbacks, _⟩ := c
  simp only [isEmpty, Bool.and_eq_true, List.isEmpty_iff] at h
  obtain ⟨⟨⟨⟨⟨⟨⟨⟨rfl, rfl⟩, rfl⟩, rfl⟩, rfl⟩, rfl⟩, rfl⟩, rfl⟩, rfl⟩ := h
  simp [normalize, Keyed.mapValues, Keyed.sortKeys]

/-- Normalizing components drops no schema. -/
theorem length_schemas_normalize (c : Components) :
    c.normalize.schemas.length = c.schemas.length := by
  rw [normalize, (Keyed.sortKeys_perm _).length_eq, Keyed.mapValues, List.length_map]

/-- A filter of the schemas that gives the components back has dropped none. -/
theorem normalize_eq_self_of_filter {c : Components} {p : String × Schema → Bool}
    (h : { c.normalize with schemas := c.normalize.schemas.filter p } = c) : c.normalize = c := by
  have hl : (c.normalize.schemas.filter p).length = c.normalize.schemas.length := by
    rw [length_schemas_normalize]
    exact congrArg (fun c => c.schemas.length) h
  rwa [List.filter_sublist.eq_of_length hl] at h

/-- Normalized components with some of their schemas do not change again when the slots that they
come from are stable. -/
theorem normalize_stable_iff (c : Components) (p : String → Bool) :
    Components.normalize { c.normalize with
        schemas := c.normalize.schemas.filter fun entry => p entry.1 } =
      { c.normalize with schemas := c.normalize.schemas.filter fun entry => p entry.1 } ↔
    ∀ s ∈ c.outerSlots ++ (c.schemas.filter fun entry => p entry.1).map Prod.snd, s.Stable := by
  have hs : (∀ entry ∈ c.normalize.schemas.filter fun entry => p entry.1,
      entry.2.normalSlot = entry.2) ↔
      ∀ s ∈ (c.schemas.filter fun entry => p entry.1).map Prod.snd, s.Stable := by
    simp only [List.mem_filter, and_imp, List.forall_mem_map]
    exact Keyed.forall_mem_sortKeys.trans Keyed.forall_mem_mapValues
  rw [normalize_eq_self_iff (c.ordered_normalize.filter_schemas _), outerSlots,
    List.forall_mem_append, List.forall_mem_append, List.forall_mem_append, ← hs,
    ← Keyed.sortKeys_mapValues_stable_iff Response.stable_iff,
    ← Keyed.sortKeys_mapValues_stable_iff Parameter.stable_iff,
    ← Keyed.sortKeys_mapValues_stable_iff RequestBody.stable_iff]
  exact and_comm.trans (and_congr_left' and_assoc.symm)

end Components

/-! ### What is left after one normalization -/

namespace Document

theorem paths_normalize (d : Document) :
    d.normalize.paths = d.paths.sortKeys.mapValues PathItem.normalize := by
  rw [normalize, dropEmptyComponents, dropUnused_eq, normalizeParts]

/-- A normalized document has the components of its normalized parts without the unused schemas,
unless nothing is left of them. -/
theorem components_normalize (d : Document) :
    d.normalize.components = d.normalizeParts.dropUnused.components.filter fun c => !c.isEmpty :=
  rfl

theorem schemas_dropEmptyComponents (d : Document) :
    d.dropEmptyComponents.componentsOrEmpty.schemas = d.componentsOrEmpty.schemas := by
  rw [dropEmptyComponents, componentsOrEmpty, componentsOrEmpty]
  cases hc : d.components with
  | none => rfl
  | some c =>
    rw [Option.filter_some]
    split
    case isTrue => rfl
    case isFalse he =>
      simp only [Components.isEmpty, Bool.not_eq_true, Bool.not_eq_false', Bool.and_eq_true,
        List.isEmpty_iff] at he
      exact he.1.1.1.1.1.1.1.1.symm

/-- The names that are left are those of the used schemas. -/
theorem mem_schemaNames_normalize {d : Document} {n : String} :
    n ∈ d.normalize.schemaNames ↔ d.normalizeParts.Uses n := by
  rw [← mem_schemaNames_dropUnused, schemaNames, schemaNames, normalize,
    schemas_dropEmptyComponents]

/-- The schemas that are left, as they were. -/
def keptSchemas (d : Document) : Keyed Schema :=
  d.componentsOrEmpty.schemas.filter fun entry => d.normalize.schemaNames.contains entry.1

/-- The slots outside of the component schemas. -/
def outerSlots (d : Document) : List Schema :=
  d.paths.flatMap (fun entry => entry.2.slots) ++ d.componentsOrEmpty.outerSlots

/-- The slots that normalizing does not drop. -/
def liveSlots (d : Document) : List Schema := d.outerSlots ++ d.keptSchemas.map Prod.snd

/-- These are the normalized components with the used schemas alone. -/
theorem components_dropUnused_normalizeParts (d : Document) :
    d.normalizeParts.dropUnused.components = d.components.map fun c =>
      { c.normalize with schemas :=
          c.normalize.schemas.filter fun entry => d.normalize.schemaNames.contains entry.1 } := by
  have hn (n : String) :
      d.normalizeParts.usedSchemas.contains n = d.normalize.schemaNames.contains n := by
    rw [Bool.eq_iff_iff, List.contains_iff_mem, List.contains_iff_mem, mem_usedSchemas_iff,
      mem_schemaNames_normalize]
  rw [dropUnused_eq]
  simp only [hn]
  simp only [normalizeParts, Option.map_map, Function.comp_def]

/-! ### The second normalization -/

/-- Normalizing the parts changes nothing exactly when it changes neither paths nor components. -/
theorem normalizeParts_eq_self_iff (d : Document) :
    d.normalizeParts = d ↔ d.paths.sortKeys.mapValues PathItem.normalize = d.paths ∧
      d.components.map Components.normalize = d.components := by
  obtain ⟨_, _, _, _, _, _, _, _, _⟩ := d
  simp only [normalizeParts, Document.mk.injEq, true_and, and_true]

/-- A document has no components, or keeps what it has. -/
theorem dropEmptyComponents_cases (d : Document) :
    d.dropEmptyComponents.components = none ∨ d.dropEmptyComponents = d := by
  obtain ⟨_, _, _, _, _, _, _, components, _⟩ := d
  rw [dropEmptyComponents]
  cases components with
  | none => exact .inl rfl
  | some c =>
    rw [Option.filter_some]
    split
    · exact .inr rfl
    · exact .inl rfl

theorem dropEmptyComponents_dropEmptyComponents (d : Document) :
    d.dropEmptyComponents.dropEmptyComponents = d.dropEmptyComponents := by
  simp only [dropEmptyComponents, Option.filter_filter, Bool.and_self]

/-- In a normalized document every schema is used. -/
theorem dropUnused_normalize (d : Document) : d.normalize.dropUnused = d.normalize := by
  rw [normalize]
  rcases d.normalizeParts.dropUnused.dropEmptyComponents_cases with h | h
  · rw [dropUnused, h]
  · rw [h, dropUnused_dropUnused]

/-- Nothing is dropped for a second time, so only the first phase can change something. -/
theorem normalize_normalize_eq_iff (d : Document) :
    d.normalize.normalize = d.normalize ↔ d.normalize.normalizeParts = d.normalize := by
  constructor
  · intro h
    have hp := congrArg paths h
    have hc := congrArg components h
    rw [paths_normalize d.normalize] at hp
    rw [components_normalize d.normalize, components_dropUnused_normalizeParts] at hc
    refine d.normalize.normalizeParts_eq_self_iff.mpr ⟨hp, ?_⟩
    -- The second run only filters the schemas, and that cannot make up for a change of them.
    cases hm : d.normalize.components with
    | none => rfl
    | some c =>
      rw [hm, Option.map_some, Option.filter_eq_some_iff, Option.some.injEq] at hc
      rw [Option.map_some, Components.normalize_eq_self_of_filter hc.1]
  · intro h
    calc d.normalize.normalize
        = d.normalize.normalizeParts.dropUnused.dropEmptyComponents := rfl
      _ = d.normalize.dropUnused.dropEmptyComponents := by rw [h]
      _ = d.normalize.dropEmptyComponents := by rw [dropUnused_normalize]
      _ = d.normalize := dropEmptyComponents_dropEmptyComponents _

/-- The paths stay exactly when their slots do. -/
theorem paths_normalize_stable_iff (d : Document) :
    d.normalize.paths.sortKeys.mapValues PathItem.normalize = d.normalize.paths ↔
      ∀ s ∈ d.paths.flatMap fun entry => entry.2.slots, s.Stable := by
  rw [paths_normalize,
    Keyed.sortKeys_of_sorted ((Keyed.sorted_sortKeys _).mapValues PathItem.normalize),
    Keyed.mapValues_mapValues_eq_iff, Keyed.forall_mem_sortKeys, List.forall_mem_flatMap]
  simp only [PathItem.stable_iff]

/-- The components stay exactly when their slots and the schemas that are kept do. -/
theorem components_normalize_stable_iff (d : Document) :
    d.normalize.components.map Components.normalize = d.normalize.components ↔
      ∀ s ∈ d.componentsOrEmpty.outerSlots ++ d.keptSchemas.map Prod.snd, s.Stable := by
  -- An empty block, which goes, would not have changed either.
  have whole : d.normalize.components.map Components.normalize = d.normalize.components ↔
      ∀ c ∈ d.normalizeParts.dropUnused.components, c.normalize = c := by
    rw [components_normalize]
    cases d.normalizeParts.dropUnused.components with
    | none => simp
    | some c =>
      rw [Option.filter_some]
      by_cases he : c.isEmpty
      · simp [he, Components.normalize_of_isEmpty he]
      · simp [he]
  rw [whole, components_dropUnused_normalizeParts, keptSchemas, componentsOrEmpty]
  cases d.components with
  | none => simp [Components.outerSlots]
  | some c =>
    simpa using c.normalize_stable_iff d.normalize.schemaNames.contains

/-- **The second normalization of a document.**  It changes nothing exactly when no node of a live
slot bares a wrapper. -/
theorem normalize_normalize_iff (d : Document) :
    d.normalize.normalize = d.normalize ↔
      ∀ s ∈ d.liveSlots, ∀ n ∈ s.nodes, ¬ n.BaresWrapper := by
  rw [normalize_normalize_eq_iff, normalizeParts_eq_self_iff, paths_normalize_stable_iff,
    components_normalize_stable_iff, ← List.forall_mem_append, ← List.append_assoc, ← outerSlots,
    ← liveSlots]
  simp only [Schema.Stable, Schema.normalSlot_normalSlot_iff]

/-- A node that shares its description with a wrapper among its entries. -/
def describedTwice : Schema :=
  { own := { description := some "D" }
    allOf := [
      { own := { description := some "D" }
        allOf := [{ own := { reference := some "#/components/schemas/X" } }] },
      { own := { type := some (.single "object"), title := some "T" } }] }

/-- A document with one response whose body is described twice. -/
def describedTwiceDocument : Document :=
  { paths := [("/p", { get := some { responses := [("200", { content :=
      [("application/json", { schema := some describedTwice })] })] } })] }

/-- The first run clears the description that kept the wrapper, the second one collapses it. -/
theorem normalize_describedTwiceDocument_ne :
    describedTwiceDocument.normalize.normalize ≠ describedTwiceDocument.normalize := by
  intro h
  have hp := ((normalizeParts_eq_self_iff _).mp ((normalize_normalize_eq_iff _).mp h)).1
  have hs : describedTwice.Stable :=
    (paths_normalize_stable_iff _).mp hp _
      (show describedTwice ∈ [describedTwice] from List.mem_singleton_self _)
  have := congrArg Schema.size hs
  revert this
  decide

end Document

end ApiAssembly
