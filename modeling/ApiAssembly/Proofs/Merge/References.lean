import ApiAssembly.Merge.Document
import ApiAssembly.Proofs.Keyed.Distinct
import ApiAssembly.Proofs.Schema.Coding
import ApiAssembly.Text.Basic

/-!
# Proofs — Merge — references into the components

A document is closed when each of its references into the components names one that it has
(`Document.Closed`).  The references that count are those in the schemas, parameters, request bodies
and responses of a document, at any depth of what is written of them.

`Document.mergeFrom` copies the paths and the schemas of a partial document with the references in
them, but of the components that these name it takes over the schemas and the security schemes
alone.  So a closed document stays closed under a closed partial one exactly when it has every
component of another kind that the copied paths and schemas refer to
(`Document.closed_merge_iff`).
-/

namespace ApiAssembly

/-! ### References -/

/-- The kinds of components. -/
inductive ComponentKind where
  | schemas | responses | parameters | examples | requestBodies | headers | securitySchemes | links
  | callbacks
  deriving DecidableEq

namespace ComponentKind

/-- The key of a kind in a components block. -/
def key : ComponentKind → String
  | .schemas         => "schemas"
  | .responses       => "responses"
  | .parameters      => "parameters"
  | .examples        => "examples"
  | .requestBodies   => "requestBodies"
  | .headers         => "headers"
  | .securitySchemes => "securitySchemes"
  | .links           => "links"
  | .callbacks       => "callbacks"

def all : List ComponentKind :=
  [.schemas, .responses, .parameters, .examples, .requestBodies, .headers, .securitySchemes, .links,
    .callbacks]

/-- The reference to a component. -/
def reference (kind : ComponentKind) (name : String) : String :=
  "#/components/" ++ kind.key ++ "/" ++ name

/-- Whether merging takes over the components of a kind. -/
def IsMerged (kind : ComponentKind) : Prop := kind = .schemas ∨ kind = .securitySchemes

instance (kind : ComponentKind) : Decidable kind.IsMerged := inferInstanceAs (Decidable (_ ∨ _))

end ComponentKind

/-- A component as a reference names it. -/
structure ComponentName where
  kind : ComponentKind
  name : String

/-- The component that a text is the reference to.  The name is the last part of the reference. -/
def ComponentName.ofReference? (text : String) : Option ComponentName := do
  let rest ← Text.strip? "#/components/".toList text.toList
  let (key, name) ← Text.splitOnce (· == '/') rest
  let kind ← ComponentKind.all.find? fun kind => kind.key.toList == key
  if name.contains '/' then none else some ⟨kind, String.ofList name⟩

namespace Json

mutual

/-- The texts under the key `$ref`, at any depth. -/
def references : Json → List String
  | .arr items  => referencesOfItems items
  | .obj fields => referencesOfFields fields
  | _           => []

def referencesOfItems : List Json → List String
  | []        => []
  | x :: rest => x.references ++ referencesOfItems rest

def referencesOfFields : List (String × Json) → List String
  | []                     => []
  | ("$ref", .str s) :: rest => s :: referencesOfFields rest
  | (_, x) :: rest         => x.references ++ referencesOfFields rest

end

end Json

/-! ### What a document refers to -/

/-- What is written of the parameters, the request body and the responses of an operation. -/
def Operation.referring (o : Operation) : List Json :=
  o.parameters.map Parameter.toJson ++ o.requestBody.toList.map RequestBody.toJson ++
    o.responses.map fun entry => entry.2.toJson

/-- What is written of the parameters of a path, and of those that can refer in its operations. -/
def PathItem.referring (p : PathItem) : List Json :=
  p.parameters.map Parameter.toJson ++ p.operations.flatMap fun o => o.2.referring

namespace Components

/-- What is written of the components that are schemas, parameters, request bodies or responses. -/
def referring (c : Components) : List Json :=
  c.schemas.map (fun entry => entry.2.toJson) ++ c.parameters.map (fun entry => entry.2.toJson) ++
    c.requestBodies.map (fun entry => entry.2.toJson) ++ c.responses.map fun entry => entry.2.toJson

/-- The names of the components of a kind. -/
def namesOf (c : Components) : ComponentKind → List String
  | .schemas         => c.schemas.keys
  | .responses       => c.responses.keys
  | .parameters      => c.parameters.keys
  | .examples        => c.examples.keys
  | .requestBodies   => c.requestBodies.keys
  | .headers         => c.headers.keys
  | .securitySchemes => c.securitySchemes.keys
  | .links           => c.links.keys
  | .callbacks       => c.callbacks.keys

end Components

/-- The components that some values refer to. -/
def componentsNamed (values : List Json) : List ComponentName :=
  (values.flatMap Json.references).filterMap ComponentName.ofReference?

namespace Document

/-- What is written of the schemas, parameters, request bodies and responses of a document. -/
def referring (d : Document) : List Json :=
  d.paths.flatMap (fun entry => entry.2.referring) ++ d.componentsOrEmpty.referring

/-- A document has a component. -/
def Has (d : Document) (c : ComponentName) : Prop := c.name ∈ d.componentsOrEmpty.namesOf c.kind

instance (d : Document) (c : ComponentName) : Decidable (d.Has c) :=
  inferInstanceAs (Decidable (_ ∈ _))

/-- A document has every component that it refers to. -/
def Closed (d : Document) : Prop := ∀ c ∈ componentsNamed d.referring, d.Has c

instance (d : Document) : Decidable d.Closed := inferInstanceAs (Decidable (∀ _ ∈ _, _))

/-- What is written of the paths and the schemas of a document. -/
def copied (d : Document) : List Json :=
  d.paths.flatMap (fun entry => entry.2.referring) ++
    d.componentsOrEmpty.schemas.map fun entry => entry.2.toJson

end Document

/-! ### References are read as what they name -/

namespace ComponentName

/-- A text is the reference to a component exactly when it is made of its kind and its name. -/
theorem ofReference?_eq_some_iff {text : String} {c : ComponentName} :
    ofReference? text = some c ↔ text = c.kind.reference c.name ∧ '/' ∉ c.name.toList := by
  have hplain : ∀ kind : ComponentKind, ∀ x ∈ kind.key.toList, (x == '/') = false := by
    intro kind x hx
    have hnone : kind.key.toList.any (· == '/') = false := by cases kind <;> rfl
    exact Bool.eq_false_iff.mpr (List.any_eq_false.mp hnone x hx)
  have hfind : ∀ kind : ComponentKind,
      (ComponentKind.all.find? fun k => k.key.toList == kind.key.toList) = some kind := by
    intro kind
    cases kind <;> decide
  obtain ⟨kind, name⟩ := c
  have hreference : (kind.reference name).toList =
      "#/components/".toList ++ (kind.key.toList ++ '/' :: name.toList) := by
    simp [ComponentKind.reference, String.toList_append]
  simp only [ofReference?, Option.bind_eq_bind, Option.bind_eq_some_iff, Prod.exists,
    Text.strip?_eq_some_iff]
  constructor
  · rintro ⟨rest, htext, key, after, hsplit, kind', hkind, hname⟩
    obtain ⟨c, hc, rfl⟩ := Text.exists_of_splitOnce_eq_some hsplit
    have hkey := List.find?_some hkind
    split at hname
    case isTrue => cases hname
    case isFalse hslash =>
      obtain ⟨rfl, rfl⟩ := ComponentName.mk.inj (Option.some.inj hname)
      refine ⟨String.toList_inj.mp ?_, by simpa using hslash⟩
      rw [hreference, htext, ← eq_of_beq hkey, eq_of_beq hc, @String.toList_ofList after]
  · rintro ⟨rfl, hname⟩
    refine ⟨_, hreference, kind.key.toList, name.toList,
      Text.splitOnce_append_cons (hplain kind) rfl, kind, hfind kind, ?_⟩
    rw [if_neg (by simpa using hname), String.ofList_toList]

end ComponentName

theorem mem_componentsNamed {values : List Json} {c : ComponentName} :
    c ∈ componentsNamed values ↔ ∃ j ∈ values, c.kind.reference c.name ∈ j.references ∧
      '/' ∉ c.name.toList := by
  simp only [componentsNamed, List.mem_filterMap, List.mem_flatMap,
    ComponentName.ofReference?_eq_some_iff]
  constructor
  · rintro ⟨text, ⟨j, hj, htext⟩, rfl, hname⟩
    exact ⟨j, hj, htext, hname⟩
  · rintro ⟨j, hj, htext, hname⟩
    exact ⟨_, ⟨j, hj, htext⟩, rfl, hname⟩

theorem componentsNamed_mono {values more : List Json} (h : values ⊆ more) :
    componentsNamed values ⊆ componentsNamed more := by
  intro c hc
  obtain ⟨j, hj, href⟩ := mem_componentsNamed.mp hc
  exact mem_componentsNamed.mpr ⟨j, h hj, href⟩

/-! ### Merging -/

/-- The name that a schema has as a component is not written. -/
theorem Schema.toJson_named (key : String) (s : Schema) : (s.named key).toJson = s.toJson := by
  rw [toJson_eq, toJson_eq]
  rfl

namespace Document

variable {d new : Document}

/-- A document that a partial one is merged into has its own components, and the schemas and
security schemes of the other. -/
theorem has_mergeFrom_iff {c : ComponentName} :
    (d.mergeFrom new).Has c ↔ d.Has c ∨ c.kind.IsMerged ∧ new.Has c := by
  obtain ⟨kind, name⟩ := c
  rw [Has, Has, Has, componentsOrEmpty_mergeFrom]
  generalize d.componentsOrEmpty = own
  generalize new.componentsOrEmpty = taken
  cases kind
  case schemas =>
    simp [Components.namesOf, Components.mergeFrom, Keyed.mem_keys_extend, keys_map_named,
      ComponentKind.IsMerged]
  case securitySchemes =>
    simp [Components.namesOf, Components.mergeFrom, Keyed.mem_keys_extend,
      ComponentKind.IsMerged]
  all_goals simp [Components.namesOf, Components.mergeFrom, ComponentKind.IsMerged]

/-- What can refer in a merged document comes from the base, or is copied with the paths and schemas
of the other. -/
theorem mem_referring_of_mem_mergeFrom {j : Json} (h : j ∈ (d.mergeFrom new).referring) :
    j ∈ d.referring ∨ j ∈ new.copied := by
  rw [referring, componentsOrEmpty_mergeFrom] at h
  simp only [referring, copied, Components.referring, Components.mergeFrom, mergeFrom,
    List.mem_append, List.mem_flatMap, List.mem_map] at h ⊢
  rcases h with ⟨entry, he, hj⟩ | ((⟨entry, he, rfl⟩ | hj) | hj) | hj
  · rcases Keyed.mem_of_mem_extend he with he | he
    · exact .inl (.inl ⟨entry, he, hj⟩)
    · exact .inr (.inl ⟨entry, he, hj⟩)
  · rcases Keyed.mem_of_mem_extend he with he | he
    · exact .inl (.inr (.inl (.inl (.inl ⟨entry, he, rfl⟩))))
    · obtain ⟨s, hs, rfl⟩ := List.mem_map.mp he
      exact .inr (.inr ⟨s, hs, (Schema.toJson_named _ _).symm⟩)
  · exact .inl (.inr (.inl (.inl (.inr hj))))
  · exact .inl (.inr (.inl (.inr hj)))
  · exact .inl (.inr (.inr hj))

/-- All that is copied can refer in the merged document. -/
theorem copied_subset_referring_mergeFrom (hp : new.paths.keys.Nodup)
    (hs : new.componentsOrEmpty.schemas.keys.Nodup) :
    new.copied ⊆ (d.mergeFrom new).referring := by
  intro j hj
  rw [referring, componentsOrEmpty_mergeFrom]
  rcases List.mem_append.mp hj with hj | hj
  · obtain ⟨entry, he, hj⟩ := List.mem_flatMap.mp hj
    exact List.mem_append_left _ (List.mem_flatMap.mpr ⟨entry, Keyed.mem_extend_of_mem hp he, hj⟩)
  · obtain ⟨entry, he, rfl⟩ := List.mem_map.mp hj
    have hnamed := (keys_map_named new.componentsOrEmpty.schemas).symm ▸ hs
    have hmem := Keyed.mem_extend_of_mem (m := d.componentsOrEmpty.schemas) hnamed
      (List.mem_map_of_mem he)
    refine List.mem_append_right _ (List.mem_append_left _ (List.mem_append_left _
      (List.mem_append_left _ ?_)))
    exact List.mem_map.mpr ⟨_, hmem, Schema.toJson_named _ _⟩

/-- **When merging keeps a document closed.**  A closed partial document is merged into a closed
one: the outcome is closed exactly when the base has every component that a copied path or schema
refers to, the schemas and security schemes apart. -/
theorem closed_merge_iff (hd : d.Closed) (hn : new.Closed) (hp : new.paths.keys.Nodup)
    (hs : new.componentsOrEmpty.schemas.keys.Nodup) :
    (d.merge new).1.Closed ↔ ∀ c ∈ componentsNamed new.copied, ¬ c.kind.IsMerged → d.Has c := by
  have hcopied : new.copied ⊆ new.referring := by
    intro j hj
    simp only [copied, referring, Components.referring, List.mem_append] at hj ⊢
    exact hj.imp_right fun h => .inl (.inl (.inl h))
  constructor
  · intro h c hc hkind
    have hhas := h c (componentsNamed_mono (copied_subset_referring_mergeFrom hp hs) hc)
    exact (has_mergeFrom_iff.mp hhas).resolve_right fun hm => hkind hm.1
  · intro h c hc
    rw [merge, has_mergeFrom_iff]
    obtain ⟨j, hj, href⟩ := mem_componentsNamed.mp hc
    rcases mem_referring_of_mem_mergeFrom hj with hj | hj
    · exact .inl (hd c (mem_componentsNamed.mpr ⟨j, hj, href⟩))
    · by_cases hkind : c.kind.IsMerged
      · exact .inr ⟨hkind, hn c (mem_componentsNamed.mpr ⟨j, hcopied hj, href⟩)⟩
      · exact .inl (h c (mem_componentsNamed.mpr ⟨j, hj, href⟩) hkind)

/-- A document with a response that its path refers to. -/
def sharingDocument (url : String) : Document :=
  { paths := [(url, { get := some { responses := [
      ("404", { reference := some "#/components/responses/NotFound" })] } })]
    components := some { responses := [("NotFound", { description := some "not found" })] } }

/-- Two documents that share a response. -/
theorem closed_merge_sharingDocument :
    ((sharingDocument "/pets").merge (sharingDocument "/owners")).1.Closed :=
  (closed_merge_iff (by decide) (by decide) (by decide) (by decide)).mpr (by decide)

/-- The response stays behind when the path is copied. -/
theorem not_closed_merge_sharingDocument :
    Closed {} ∧ (sharingDocument "/pets").Closed ∧
      ¬ (merge {} (sharingDocument "/pets")).1.Closed :=
  ⟨by decide, by decide, by decide⟩

end Document

end ApiAssembly
