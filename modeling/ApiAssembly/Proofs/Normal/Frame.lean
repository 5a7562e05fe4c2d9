import ApiAssembly.Proofs.Keyed.Entries
import ApiAssembly.Proofs.Merge.Slots
import ApiAssembly.Proofs.Normal.Stability

/-!
# Proofs — Normal — what normalizing leaves alone

A relation `ButForSlots` for each kind of object says that the second object is the first one with
the schemas in its slots in normal form.  Everything else is the same: `rest` compares the two
objects without the parts that hold slots, lists and maps below paths keep their order, and the maps
of paths and components are put in the order of their keys (`Keyed.PutInOrder`).  Each object is
related to its normal form when the objects right below it are.

* `Document.normalize_touches_only_slots`: a document is related to its normal form, and so is the
  operation of every path and method.  Component schemas may be missing, and the whole components
  block when its maps are empty.

A block that goes takes along its keywords that are not modelled.  They stay exactly when a
component stays (`Document.unmodelled_stay_with_components`), and there is a document that loses one
(`Document.not_keepsUnmodelled_pathItemsDocument`).
-/

namespace ApiAssembly

/-! ### Maps with related values -/

/-- A function that relates each value to its result does so for an optional one. -/
theorem optionRel_map {α β : Type} {R : α → β → Prop} {f : α → β} (h : ∀ x, R x (f x))
    (o : Option α) : Option.Rel R o (o.map f) := by
  cases o with
  | none => exact .none
  | some x => exact .some (h x)

namespace Keyed

variable {α β : Type} {R : α → β → Prop} {f : α → β}

/-- The same keys in the same order, with related values. -/
def Related (R : α → β → Prop) (m : Keyed α) (m' : Keyed β) : Prop :=
  List.Forall₂ (fun a b => b.1 = a.1 ∧ R a.2 b.2) m m'

/-- The second map is in the order of its keys, and under every key it has the related values. -/
structure PutInOrder (R : α → β → Prop) (m : Keyed α) (m' : Keyed β) : Prop where
  sorted : m'.Sorted
  related : ∀ k, Related R (m.entriesAt k) (m'.entriesAt k)

/-- A function that relates each value to its result does so under every key. -/
theorem related_mapValues (h : ∀ x, R x (f x)) (m : Keyed α) : Related R m (m.mapValues f) := by
  rw [Related, mapValues, List.forall₂_map_right_iff]
  exact List.forall₂_same.mpr fun entry _ => ⟨rfl, h entry.2⟩

/-- Related maps have related first values. -/
theorem Related.head? {m : Keyed α} {m' : Keyed β} (h : Related R m m') :
    Option.Rel R (m.head?.map Prod.snd) (m'.head?.map Prod.snd) := by
  cases h with
  | nil => exact .none
  | cons h _ => exact .some h.2

/-- What is found under a key is related to what was. -/
theorem PutInOrder.get? {m : Keyed α} {m' : Keyed β} (h : PutInOrder R m m') (k : String) :
    Option.Rel R (m.get? k) (m'.get? k) := by
  rw [get?_eq_head?_entriesAt, get?_eq_head?_entriesAt]
  exact (h.related k).head?

/-- A map is in order and related when its entries under each key are the images of what was
there. -/
theorem putInOrder_of_entriesAt {m : Keyed α} {m' : Keyed β} (hs : m'.Sorted)
    (h : ∀ x, R x (f x)) (he : ∀ k, m'.entriesAt k = (m.entriesAt k).mapValues f) :
    PutInOrder R m m' :=
  ⟨hs, fun k => he k ▸ related_mapValues h _⟩

/-- A map that is put in order and then changed is related to what it was. -/
theorem putInOrder_mapValues_sortKeys (h : ∀ x, R x (f x)) (m : Keyed α) :
    PutInOrder R m (m.sortKeys.mapValues f) :=
  putInOrder_of_entriesAt (m.sorted_sortKeys.mapValues f) h fun k => by
    rw [entriesAt_mapValues, entriesAt_sortKeys]

/-- So is one that is changed first. -/
theorem putInOrder_sortKeys_mapValues (h : ∀ x, R x (f x)) (m : Keyed α) :
    PutInOrder R m (m.mapValues f).sortKeys :=
  putInOrder_of_entriesAt (sorted_sortKeys _) h fun k => by
    rw [entriesAt_sortKeys, entriesAt_mapValues]

theorem putInOrder_sortKeys (m : Keyed α) : PutInOrder Eq m m.sortKeys :=
  ⟨m.sorted_sortKeys, fun k => by
    rw [entriesAt_sortKeys]
    exact List.forall₂_same.mpr fun _ _ => ⟨rfl, rfl⟩⟩

/-- Keys can be dropped once the map is in order. -/
theorem PutInOrder.filter {m : Keyed α} {m' : Keyed β} (h : PutInOrder R m m')
    (keep : String → Bool) :
    PutInOrder R (m.filter fun entry => keep entry.1) (m'.filter fun entry => keep entry.1) := by
  refine ⟨h.sorted.filter _, fun k => ?_⟩
  rw [entriesAt_filter, entriesAt_filter]
  split
  · exact h.related k
  · exact .nil

theorem isEmpty_sortKeys (m : Keyed α) : m.sortKeys.isEmpty = m.isEmpty :=
  m.sortKeys_perm.isEmpty_eq

theorem isEmpty_mapValues (f : α → β) (m : Keyed α) : (m.mapValues f).isEmpty = m.isEmpty :=
  List.isEmpty_map

end Keyed

/-! ### Documents but for their slots -/

namespace Parameter

/-- The second parameter is the first with its schema in normal form. -/
structure ButForSlots (p q : Parameter) : Prop where
  rest : { q with schema := none } = { p with schema := none }
  schema : q.schema = p.schema.map Schema.normalSlot

/-- Of a parameter only the schema changes. -/
theorem butForSlots_normalize (p : Parameter) : p.ButForSlots p.normalize := ⟨rfl, rfl⟩

end Parameter

namespace MediaType

/-- The second media type is the first with its schema in normal form. -/
structure ButForSlots (m n : MediaType) : Prop where
  rest : { n with schema := none } = { m with schema := none }
  schema : n.schema = m.schema.map Schema.normalSlot

/-- Of a media type only the schema changes. -/
theorem butForSlots_normalize (m : MediaType) : m.ButForSlots m.normalize := ⟨rfl, rfl⟩

end MediaType

namespace RequestBody

/-- The second body is the first but for the schemas of its media types, which keep their order. -/
structure ButForSlots (b c : RequestBody) : Prop where
  rest : { c with content := [] } = { b with content := [] }
  content : Keyed.Related MediaType.ButForSlots b.content c.content

theorem butForSlots_normalize (b : RequestBody) : b.ButForSlots b.normalize :=
  ⟨rfl, Keyed.related_mapValues MediaType.butForSlots_normalize _⟩

end RequestBody

namespace Response

/-- The second response is the first but for the schemas of its media types, which keep their
order. -/
structure ButForSlots (r t : Response) : Prop where
  rest : { t with content := [] } = { r with content := [] }
  content : Keyed.Related MediaType.ButForSlots r.content t.content

theorem butForSlots_normalize (r : Response) : r.ButForSlots r.normalize :=
  ⟨rfl, Keyed.related_mapValues MediaType.butForSlots_normalize _⟩

end Response

/-- Parameters keep their order, and only their schemas change. -/
theorem forall₂_butForSlots_normalize (ps : List Parameter) :
    List.Forall₂ Parameter.ButForSlots ps (ps.map Parameter.normalize) :=
  List.forall₂_map_right_iff.mpr (List.forall₂_same.mpr fun p _ => p.butForSlots_normalize)

namespace Operation

/-- The second operation is the first but for the schemas of its parameters, of its body and of its
responses, which keep their order. -/
structure ButForSlots (o p : Operation) : Prop where
  rest : { p with parameters := [], requestBody := none, responses := [] } =
    { o with parameters := [], requestBody := none, responses := [] }
  parameters : List.Forall₂ Parameter.ButForSlots o.parameters p.parameters
  requestBody : Option.Rel RequestBody.ButForSlots o.requestBody p.requestBody
  responses : Keyed.Related Response.ButForSlots o.responses p.responses

/-- An operation is related to its normal form since its parts are. -/
theorem butForSlots_normalize (o : Operation) : o.ButForSlots o.normalize where
  rest := rfl
  parameters := forall₂_butForSlots_normalize _
  requestBody := optionRel_map RequestBody.butForSlots_normalize _
  responses := Keyed.related_mapValues Response.butForSlots_normalize _

end Operation

namespace PathItem

/-- The second path has the operations of the first but for their slots, and its parameters but for
their schemas. -/
structure ButForSlots (p q : PathItem) : Prop where
  operation : ∀ m, Option.Rel Operation.ButForSlots (p.operation m) (q.operation m)
  parameters : List.Forall₂ Parameter.ButForSlots p.parameters q.parameters
  extensions : q.extensions = p.extensions

/-- A path item is related to its normal form since its operations are. -/
theorem butForSlots_normalize (p : PathItem) : p.ButForSlots p.normalize where
  operation m := by
    rw [operation_normalize]
    exact optionRel_map Operation.butForSlots_normalize _
  parameters := forall₂_butForSlots_normalize _
  extensions := rfl

end PathItem

namespace Components

/-- The second components are the first in the order of their keys, but for their slots and for
schemas that were dropped. -/
structure ButForSlots (c e : Components) : Prop where
  schemas : ∃ keep : String → Bool, Keyed.PutInOrder (fun s t => s.normalSlot = t)
    (c.schemas.filter fun entry => keep entry.1) e.schemas
  responses : Keyed.PutInOrder Response.ButForSlots c.responses e.responses
  parameters : Keyed.PutInOrder Parameter.ButForSlots c.parameters e.parameters
  examples : Keyed.PutInOrder Eq c.examples e.examples
  requestBodies : Keyed.PutInOrder RequestBody.ButForSlots c.requestBodies e.requestBodies
  headers : Keyed.PutInOrder Eq c.headers e.headers
  securitySchemes : Keyed.PutInOrder Eq c.securitySchemes e.securitySchemes
  links : Keyed.PutInOrder Eq c.links e.links
  callbacks : Keyed.PutInOrder Eq c.callbacks e.callbacks
  extensions : e.extensions = c.extensions

/-- Components are related to their normal form, of which schemas may be missing. -/
theorem butForSlots_normalize_filter (c : Components) (keep : String → Bool) :
    c.ButForSlots { c.normalize with
      schemas := c.normalize.schemas.filter fun entry => keep entry.1 } where
  schemas := ⟨keep, (Keyed.putInOrder_sortKeys_mapValues (fun _ => rfl) _).filter keep⟩
  responses := Keyed.putInOrder_sortKeys_mapValues Response.butForSlots_normalize _
  parameters := Keyed.putInOrder_sortKeys_mapValues Parameter.butForSlots_normalize _
  examples := Keyed.putInOrder_sortKeys _
  requestBodies := Keyed.putInOrder_sortKeys_mapValues RequestBody.butForSlots_normalize _
  headers := Keyed.putInOrder_sortKeys _
  securitySchemes := Keyed.putInOrder_sortKeys _
  links := Keyed.putInOrder_sortKeys _
  callbacks := Keyed.putInOrder_sortKeys _
  extensions := rfl

/-- What becomes of a components block: it goes when its nine maps are empty. -/
inductive BlockButForSlots : Option Components → Option Components → Prop where
  | none : BlockButForSlots none none
  | kept {c e : Components} (h : c.ButForSlots e) (he : ¬ e.isEmpty) :
      BlockButForSlots (some c) (some e)
  | removed {c e : Components} (h : c.ButForSlots e) (he : e.isEmpty) :
      BlockButForSlots (some c) none

/-- Whether components are empty is up to the other maps and the schemas that are left. -/
theorem isEmpty_normalize_with (c : Components) (schemas : Keyed Schema) :
    isEmpty { c.normalize with schemas := schemas } =
      (schemas.isEmpty && isEmpty { c with schemas := [] }) := by
  simp only [isEmpty, normalize, Keyed.isEmpty_sortKeys, Keyed.isEmpty_mapValues,
    List.isEmpty_nil, Bool.true_and, Bool.and_assoc]

end Components

namespace Document

/-- The second document is the first with its paths and component maps in the order of their keys,
but for its slots and for the schemas and the block that were dropped. -/
structure ButForSlots (d e : Document) : Prop where
  rest : { e with paths := [], components := none } = { d with paths := [], components := none }
  paths : Keyed.PutInOrder PathItem.ButForSlots d.paths e.paths
  components : Components.BlockButForSlots d.components e.components

/-- The operation of every slot is there as it was, but for its schemas. -/
theorem ButForSlots.operationAt {d e : Document} (h : d.ButForSlots e) (url : String)
    (method : Method) :
    Option.Rel Operation.ButForSlots (d.operationAt url method) (e.operationAt url method) := by
  rw [Document.operationAt, Document.operationAt]
  have hpath := h.paths.get? url
  generalize d.paths.get? url = p, e.paths.get? url = q at hpath ⊢
  cases hpath with
  | some hpath => exact hpath.operation method
  | none =>
    have hnone : ({} : PathItem).operation method = none := by cases method <;> rfl
    rw [Option.getD_none, hnone]
    exact .none

theorem rest_normalize (d : Document) :
    { d.normalize with paths := [], components := none } =
      { d with paths := [], components := none } := by
  rw [normalize, dropEmptyComponents, dropUnused_eq]
  rfl

/-- The components block is related to what is left of it, which may be nothing. -/
theorem blockButForSlots_normalize (d : Document) :
    Components.BlockButForSlots d.components d.normalize.components := by
  rw [components_normalize, components_dropUnused_normalizeParts]
  cases d.components with
  | none => exact .none
  | some c =>
    rw [Option.map_some, Option.filter_some]
    have h := c.butForSlots_normalize_filter d.normalize.schemaNames.contains
    split
    case isTrue he => exact .kept h (by simpa using he)
    case isFalse he => exact .removed h (by simpa using he)

/-- A document is related to its normal form since its paths and components are. -/
theorem butForSlots_normalize (d : Document) : d.ButForSlots d.normalize := by
  refine ⟨d.rest_normalize, ?_, d.blockButForSlots_normalize⟩
  rw [paths_normalize]
  exact Keyed.putInOrder_mapValues_sortKeys PathItem.butForSlots_normalize _

/-- **Normalizing touches nothing but the slots.**  The document is as it was, but for the order of
paths and components, the schemas in its slots and what was dropped; every operation is still
there. -/
theorem normalize_touches_only_slots (d : Document) :
    d.ButForSlots d.normalize ∧
      ∀ url method, Option.Rel Operation.ButForSlots (d.operationAt url method)
        (d.normalize.operationAt url method) :=
  ⟨d.butForSlots_normalize, d.butForSlots_normalize.operationAt⟩

/-! ### Keywords of the components that are not modelled -/

/-- Every entry of the components for a keyword that is not modelled is still there. -/
def KeepsUnmodelled (d : Document) : Prop :=
  ∀ entry ∈ d.componentsOrEmpty.extensions, entry ∈ d.normalize.componentsOrEmpty.extensions

/-- A component stays: there is one that is no schema, or a schema is used. -/
def HasLiveComponent (d : Document) : Prop :=
  ¬ Components.isEmpty { d.componentsOrEmpty with schemas := [] } ∨ ∃ n, d.normalizeParts.Uses n

/-- A schema is left exactly when one is used. -/
theorem exists_uses_normalizeParts_iff {d : Document} {e : Components}
    (he : d.normalizeParts.dropUnused.components = some e) :
    (∃ n, d.normalizeParts.Uses n) ↔ e.schemas ≠ [] := by
  have names : d.normalizeParts.dropUnused.schemaNames = e.schemas.keys := by
    rw [schemaNames, componentsOrEmpty, he, Option.getD_some]
  constructor
  · rintro ⟨n, hn⟩ hnil
    have hn := mem_schemaNames_dropUnused.mpr hn
    rw [names, hnil] at hn
    exact absurd hn List.not_mem_nil
  · intro hne
    obtain ⟨entry, hentry⟩ := List.exists_mem_of_ne_nil _ hne
    exact ⟨entry.1, mem_schemaNames_dropUnused.mp (names ▸ List.mem_map_of_mem hentry)⟩

/-- The block that is left, before it goes if it is empty. -/
theorem exists_components_dropUnused {d : Document} {c : Components} (hc : d.components = some c) :
    ∃ e, d.normalizeParts.dropUnused.components = some e ∧ e.extensions = c.extensions ∧
      (e.isEmpty ↔ ¬ d.HasLiveComponent) := by
  have he := d.components_dropUnused_normalizeParts
  rw [hc, Option.map_some] at he
  refine ⟨_, he, rfl, ?_⟩
  rw [Components.isEmpty_normalize_with, HasLiveComponent, exists_uses_normalizeParts_iff he,
    componentsOrEmpty, hc, Option.getD_some, not_or, not_not, not_not, Bool.and_eq_true,
    List.isEmpty_iff, and_comm]

/-- The block stays with all that it holds where a component does. -/
theorem extensions_normalize_of_hasLiveComponent {d : Document} (h : d.HasLiveComponent) :
    d.normalize.componentsOrEmpty.extensions = d.componentsOrEmpty.extensions := by
  rw [componentsOrEmpty, componentsOrEmpty, components_normalize]
  cases hc : d.components with
  | none =>
    rw [dropUnused_eq, normalizeParts, hc]
    rfl
  | some c =>
    obtain ⟨e, he, hx, hempty⟩ := exists_components_dropUnused hc
    have hne : ¬ e.isEmpty := fun hem => hempty.mp hem h
    rw [he, Option.filter_some, if_pos (by simpa using hne)]
    exact hx

/-- The block goes where no component stays, whatever else it holds. -/
theorem components_normalize_of_not_hasLiveComponent {d : Document} (h : ¬ d.HasLiveComponent) :
    d.normalize.components = none := by
  rw [components_normalize]
  cases hc : d.components with
  | none =>
    rw [dropUnused_eq, normalizeParts, hc]
    rfl
  | some c =>
    obtain ⟨e, he, -, hempty⟩ := exists_components_dropUnused hc
    rw [he, Option.filter_some, if_neg (by simpa using hempty.mpr h)]

/-- Keywords that are not modelled stay where there are none or where a component stays. -/
theorem keepsUnmodelled_iff (d : Document) :
    d.KeepsUnmodelled ↔ d.componentsOrEmpty.extensions = [] ∨ d.HasLiveComponent := by
  constructor
  · intro h
    by_contra hnot
    obtain ⟨hne, hlive⟩ := not_or.mp hnot
    obtain ⟨entry, hentry⟩ := List.exists_mem_of_ne_nil _ hne
    have := h entry hentry
    rw [componentsOrEmpty, components_normalize_of_not_hasLiveComponent hlive] at this
    exact List.not_mem_nil this
  · rintro (h | h) entry hentry
    · rw [h] at hentry
      exact absurd hentry List.not_mem_nil
    · rwa [extensions_normalize_of_hasLiveComponent h]

/-- **Keywords that are not modelled stay with the block.**  All of those of the components are
still there exactly when there were none or a component stays; where none does, the block is gone
as a whole. -/
theorem unmodelled_stay_with_components (d : Document) :
    (d.KeepsUnmodelled ↔ d.componentsOrEmpty.extensions = [] ∨ d.HasLiveComponent) ∧
      (¬ d.HasLiveComponent → d.normalize.components = none) :=
  ⟨d.keepsUnmodelled_iff, components_normalize_of_not_hasLiveComponent⟩

/-- A document with a schema that nothing refers to, and with a path among its components. -/
def pathItemsDocument : Document :=
  { components := some
      { schemas := [("O", {})]
        extensions := [("pathItems", .obj [("p", .obj [])])] } }

theorem not_uses_pathItemsDocument {n : String} : ¬ pathItemsDocument.normalizeParts.Uses n := by
  have hsame :
      pathItemsDocument.normalizeParts.withoutSchemas = pathItemsDocument.withoutSchemas := by
    simp [normalizeParts, withoutSchemas, pathItemsDocument, Components.normalize, Keyed.sortKeys,
      Keyed.mapValues]
  intro h
  induction h with
  | outside hn hr =>
    obtain rfl : _ = "O" := by
      simpa [schemaNames, componentsOrEmpty, normalizeParts, pathItemsDocument,
        Components.normalize, Keyed.sortKeys, Keyed.mapValues, Keyed.keys] using hn
    rw [hsame] at hr
    revert hr
    decide
  | schema _ _ _ _ ih => exact ih

/-- The schema goes, then the block, and the path with it. -/
theorem not_keepsUnmodelled_pathItemsDocument : ¬ pathItemsDocument.KeepsUnmodelled := by
  have hlive : ¬ pathItemsDocument.HasLiveComponent := by
    rintro (h | ⟨n, hn⟩)
    · exact h rfl
    · exact not_uses_pathItemsDocument hn
  intro h
  have hentry := h ("pathItems", .obj [("p", .obj [])]) List.mem_cons_self
  rw [componentsOrEmpty, components_normalize_of_not_hasLiveComponent hlive] at hentry
  exact List.not_mem_nil hentry

end Document

end ApiAssembly
