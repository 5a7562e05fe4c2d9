import ApiAssembly.Proofs.Json.Texts
import ApiAssembly.Proofs.Schema.Coding
import ApiAssembly.Proofs.Schema.Tree

/-!
# Proofs — Document — the texts of a document are written out

`texts` of an object lists all its texts at any depth: references, names, descriptions, the keys of
its maps and all that its free-form values hold.  What is written of an object has all its texts
(`texts_subset_toJson` of each kind of object).

The name that a schema has as a component is not written, and so it is not among its texts.  The
names of the component schemas are no texts of a document either: they are what its texts refer to.
-/

namespace ApiAssembly

open Json (textsOfFields)

/-- The keys of a map and the texts of its values. -/
def Keyed.textsWith {α : Type} (f : α → List String) (m : Keyed α) : List String :=
  m.flatMap fun entry => entry.1 :: f entry.2

/-! ### Texts in the entries of an object -/

/-- All the texts stand in the entries. -/
def Written (texts : List String) (fields : List (String × Json)) : Prop :=
  texts ⊆ textsOfFields fields

namespace Written

variable {α : Type} {xs ys : List String} {fields more : List (String × Json)} {key : String}
  {texts : α → List String} {write : α → Json}

/-- Entries that come behind take no text away. -/
theorem append_left (h : Written xs fields) : Written xs (fields ++ more) := by
  intro t ht
  rw [Json.textsOfFields_eq, List.flatMap_append, ← Json.textsOfFields_eq]
  exact List.mem_append_left _ (h ht)

theorem append_right (h : Written xs more) : Written xs (fields ++ more) := by
  intro t ht
  rw [Json.textsOfFields_eq, List.flatMap_append, ← Json.textsOfFields_eq more]
  exact List.mem_append_right _ (h ht)

/-- What is written in two parts has the texts of both. -/
theorem append (h : Written xs fields) (h' : Written ys more) :
    Written (xs ++ ys) (fields ++ more) :=
  List.append_subset.mpr ⟨h.append_left, h'.append_right⟩

/-- A free map is written with its keys and the texts of its values. -/
theorem entries (m : Keyed Json) : Written (m.textsWith Json.texts) m := by
  rw [Written, Json.textsOfFields_eq]
  exact List.Subset.refl _

/-- One entry has the texts of its value. -/
theorem single {x : Json} (h : xs ⊆ x.texts) : Written xs [(key, x)] := by
  intro t ht
  rw [Json.textsOfFields_eq, List.flatMap_singleton]
  exact List.mem_cons_of_mem _ (h ht)

/-- An optional part is written where it is there. -/
theorem optional (h : ∀ a, texts a ⊆ (write a).texts) (o : Option α) :
    Written (o.toList.flatMap texts) (optionalEntry key write o) := by
  cases o with
  | none => exact List.nil_subset _
  | some a =>
    rw [Option.toList_some, List.flatMap_singleton]
    exact single (h a)

theorem text (o : Option String) : Written o.toList (textEntry key o) := by
  cases o with
  | none => exact List.nil_subset _
  | some s => exact single (List.Subset.refl _)

/-- A list is written with the texts of its items. -/
theorem items (h : ∀ a, texts a ⊆ (write a).texts) (l : List α) :
    Written (l.flatMap texts) (listEntry key (l.map write)) := by
  rw [listEntry]
  split
  case isTrue he =>
    rw [List.isEmpty_iff, List.map_eq_nil_iff] at he
    subst he
    exact List.nil_subset _
  case isFalse =>
    refine single fun t ht => ?_
    obtain ⟨a, ha, hta⟩ := List.mem_flatMap.mp ht
    rw [Json.texts_arr, List.flatMap_map]
    exact List.mem_flatMap.mpr ⟨a, ha, h a hta⟩

theorem texts_list (l : List String) : Written l (listEntry key (l.map .str)) := by
  have h : Written (l.flatMap fun s => [s]) (listEntry key (l.map .str)) :=
    items (fun s => List.Subset.refl [s]) l
  rwa [List.flatMap_singleton'] at h

/-- A map is written with its keys and what is written of its values. -/
theorem mapValues (h : ∀ a, texts a ⊆ (write a).texts) (m : Keyed α) :
    Keyed.textsWith texts m ⊆ (Json.obj (m.mapValues write)).texts := by
  intro t ht
  obtain ⟨⟨k, a⟩, hm, hta⟩ := List.mem_flatMap.mp ht
  rw [Json.texts_obj, Keyed.mapValues, List.flatMap_map]
  refine List.mem_flatMap.mpr ⟨(k, a), hm, ?_⟩
  rcases List.mem_cons.mp hta with rfl | hta
  · exact List.mem_cons_self
  · exact List.mem_cons_of_mem _ (h a hta)

/-- An entry with a map is left out only where the map has no text. -/
theorem mapEntry_of {m : Keyed Json} (h : xs ⊆ (Json.obj m).texts) :
    Written xs (mapEntry key m) := by
  rw [mapEntry]
  split
  case isTrue he =>
    rw [List.isEmpty_iff] at he
    subst he
    exact h
  case isFalse => exact single h

/-- The entry of a map has its keys and the texts of its values. -/
theorem map (h : ∀ a, texts a ⊆ (write a).texts) (m : Keyed α) :
    Written (Keyed.textsWith texts m) (mapEntry key (m.mapValues write)) :=
  mapEntry_of (mapValues h m)

theorem values (m : Keyed Json) : Written (m.textsWith Json.texts) (mapEntry key m) :=
  mapEntry_of (entries m)

end Written

/-! ### Schemas -/

def SchemaType.texts : SchemaType → List String
  | .single name    => [name]
  | .multiple names => names

/-- The names of the types of a schema are written. -/
theorem SchemaType.texts_subset_toJson (t : SchemaType) : t.texts ⊆ t.toJson.texts := by
  cases t with
  | single name => exact List.Subset.refl _
  | multiple names =>
    intro s hs
    rw [toJson, textList, Json.texts_arr, List.flatMap_map]
    exact List.mem_flatMap.mpr ⟨s, hs, List.mem_singleton_self s⟩

namespace Keywords

/-- The texts of the keywords that are written in front of the properties. -/
def textsBefore (k : Keywords) : List String :=
  k.reference.toList ++ k.type.toList.flatMap SchemaType.texts ++ k.title.toList ++
    k.description.toList ++ k.default.toList.flatMap Json.texts

def texts (k : Keywords) : List String :=
  k.textsBefore ++ k.required ++ k.extensions.textsWith Json.texts

/-- The keywords of a node are written in front of its schemas. -/
theorem written_entriesBefore (k : Keywords) : Written k.textsBefore k.entriesBefore :=
  ((((Written.text _).append (.optional SchemaType.texts_subset_toJson _)).append
    (.text _)).append (.text _)).append (.optional (fun _ => List.Subset.refl _) _)

end Keywords

namespace Schema

/-- The texts of a tree: those of the keywords of its nodes, and the names of their properties. -/
def texts (s : Schema) : List String :=
  s.nodes.flatMap fun n => n.own.texts ++ Keyed.keys n.properties

/-- What is written of a node has the texts of its keywords and all that is written right below. -/
theorem written_toJson (s : Schema) :
    s.own.textsBefore ++ Keyed.textsWith (fun p => p.toJson.texts) s.properties ++
      s.own.required ++ s.allOf.flatMap (fun e => e.toJson.texts) ++
      s.items.toList.flatMap (fun t => t.toJson.texts) ++
      s.own.extensions.textsWith Json.texts ⊆ s.toJson.texts := by
  have refl : ∀ p : Schema, p.toJson.texts ⊆ p.toJson.texts := fun p => List.Subset.refl _
  rw [toJson_eq]
  exact ((((s.own.written_entriesBefore.append (.map refl _)).append (.texts_list _)).append
    (.items refl _)).append (.optional refl _)).append (.entries _)

/-- What is written of a schema has all its texts, at any depth. -/
theorem texts_subset_toJson (s : Schema) : s.texts ⊆ s.toJson.texts := by
  induction s using induct with
  | node s hp hi ha =>
    intro t hts
    apply s.written_toJson
    simp only [List.mem_append, List.mem_flatMap]
    obtain ⟨n, hn, ht⟩ := List.mem_flatMap.mp hts
    rcases mem_nodes_iff.mp hn with rfl | ⟨p, hpm, hn⟩ | ⟨u, hu, hn⟩ | ⟨e, he, hn⟩
    -- The node itself: the keywords before the properties, the required names, the extensions; or
    -- the name of a property.
    · rcases List.mem_append.mp ht with ht | ht
      · simp only [Keywords.texts, List.mem_append] at ht
        rcases ht with (ht | ht) | ht
        · exact .inl (.inl (.inl (.inl (.inl ht))))
        · exact .inl (.inl (.inl (.inr ht)))
        · exact .inr ht
      · obtain ⟨p, hpm, rfl⟩ := List.mem_map.mp ht
        exact .inl (.inl (.inl (.inl (.inr
          (List.mem_flatMap.mpr ⟨p, hpm, List.mem_cons_self⟩)))))
    · have := hp p hpm (List.mem_flatMap.mpr ⟨n, hn, ht⟩)
      exact .inl (.inl (.inl (.inl (.inr
        (List.mem_flatMap.mpr ⟨p, hpm, List.mem_cons_of_mem _ this⟩)))))
    · have := hi u hu (List.mem_flatMap.mpr ⟨n, hn, ht⟩)
      exact .inl (.inr ⟨u, Option.mem_toList.mpr hu, this⟩)
    · have := ha e he (List.mem_flatMap.mpr ⟨n, hn, ht⟩)
      exact .inl (.inl (.inr ⟨e, he, this⟩))

end Schema

/-! ### The other objects -/

namespace SecurityRequirement

def texts (r : SecurityRequirement) : List String := Keyed.textsWith id r

theorem texts_subset_toJson (r : SecurityRequirement) : r.texts ⊆ r.toJson.texts := by
  refine Written.mapValues (fun scopes => ?_) r
  intro t ht
  rw [textList, Json.texts_arr, List.flatMap_map]
  exact List.mem_flatMap.mpr ⟨t, ht, List.mem_singleton_self t⟩

end SecurityRequirement

namespace Info

def texts (i : Info) : List String :=
  [i.title] ++ [i.version] ++ i.description.toList ++ i.extensions.textsWith Json.texts

theorem texts_subset_toJson (i : Info) : i.texts ⊆ i.toJson.texts := by
  have ht : Written [i.title] [("title", .str i.title)] := .single (List.Subset.refl _)
  have hv : Written [i.version] [("version", .str i.version)] := .single (List.Subset.refl _)
  exact ((ht.append hv).append (.text _)).append (.entries _)

end Info

namespace Tag

def texts (t : Tag) : List String :=
  [t.name] ++ t.description.toList ++ t.extensions.textsWith Json.texts

theorem texts_subset_toJson (t : Tag) : t.texts ⊆ t.toJson.texts := by
  have hn : Written [t.name] [("name", .str t.name)] := .single (List.Subset.refl _)
  exact (hn.append (.text _)).append (.entries _)

end Tag

namespace Server

def texts (s : Server) : List String :=
  [s.url] ++ s.description.toList ++ s.extensions.textsWith Json.texts

theorem texts_subset_toJson (s : Server) : s.texts ⊆ s.toJson.texts := by
  have hu : Written [s.url] [("url", .str s.url)] := .single (List.Subset.refl _)
  exact (hu.append (.text _)).append (.entries _)

end Server

namespace Parameter

def texts (p : Parameter) : List String :=
  p.reference.toList ++ p.name.toList ++ p.location.toList ++ p.description.toList ++
    p.schema.toList.flatMap Schema.texts ++ p.extensions.textsWith Json.texts

/-- A parameter is written with the texts of its schema. -/
theorem texts_subset_toJson (p : Parameter) : p.texts ⊆ p.toJson.texts :=
  ((((((Written.text _).append (.text _)).append (.text _)).append (.text _)).append_left).append
    (.optional Schema.texts_subset_toJson _)).append (.entries _)

end Parameter

namespace MediaType

def texts (m : MediaType) : List String :=
  m.schema.toList.flatMap Schema.texts ++ m.extensions.textsWith Json.texts

/-- A media type is written with the texts of its schema. -/
theorem texts_subset_toJson (m : MediaType) : m.texts ⊆ m.toJson.texts :=
  (Written.optional Schema.texts_subset_toJson _).append (.entries _)

end MediaType

namespace RequestBody

def texts (b : RequestBody) : List String :=
  b.reference.toList ++ b.description.toList ++ b.content.textsWith MediaType.texts ++
    b.extensions.textsWith Json.texts

/-- A request body is written with its media types. -/
theorem texts_subset_toJson (b : RequestBody) : b.texts ⊆ b.toJson.texts :=
  ((((Written.text _).append (.text _)).append
    (.map MediaType.texts_subset_toJson _)).append_left).append (.entries _)

end RequestBody

namespace Response

def texts (r : Response) : List String :=
  r.reference.toList ++ r.description.toList ++ r.content.textsWith MediaType.texts ++
    r.extensions.textsWith Json.texts

/-- A response is written with its media types. -/
theorem texts_subset_toJson (r : Response) : r.texts ⊆ r.toJson.texts :=
  (((Written.text _).append (.text _)).append
    (.map MediaType.texts_subset_toJson _)).append (.entries _)

end Response

namespace Operation

def texts (o : Operation) : List String :=
  o.tags ++ o.summary.toList ++ o.description.toList ++ o.operationId.toList ++
    o.parameters.flatMap Parameter.texts ++ o.requestBody.toList.flatMap RequestBody.texts ++
    o.responses.textsWith Response.texts ++
    o.security.toList.flatMap (List.flatMap SecurityRequirement.texts) ++
    o.extensions.textsWith Json.texts

/-- An operation is written with the texts of all its parts. -/
theorem texts_subset_toJson (o : Operation) : o.texts ⊆ o.toJson.texts := by
  have security (rs : List SecurityRequirement) :
      rs.flatMap SecurityRequirement.texts ⊆
        (Json.arr (rs.map SecurityRequirement.toJson)).texts := by
    rw [Json.texts_arr, List.flatMap_map]
    intro t ht
    obtain ⟨r, hr, ht⟩ := List.mem_flatMap.mp ht
    exact List.mem_flatMap.mpr ⟨r, hr, r.texts_subset_toJson ht⟩
  refine Written.append ?_ (.entries _)
  refine Written.append ?_ (.optional security _)
  -- The flag has no text.
  refine Written.append_left ?_
  refine Written.append ?_ (.map Response.texts_subset_toJson _)
  refine Written.append ?_ (.optional RequestBody.texts_subset_toJson _)
  refine Written.append ?_ (.items Parameter.texts_subset_toJson _)
  exact (((Written.texts_list _).append (.text _)).append (.text _)).append (.text _)

end Operation

namespace PathItem

def texts (p : PathItem) : List String :=
  p.operations.flatMap (fun o => o.2.texts) ++ p.parameters.flatMap Parameter.texts ++
    p.extensions.textsWith Json.texts

/-- A path item is written with its operations, each under its method. -/
theorem texts_subset_toJson (p : PathItem) : p.texts ⊆ p.toJson.texts := by
  have operations : Written (p.operations.flatMap fun o => o.2.texts)
      (p.operations.map fun o => (o.1.key, o.2.toJson)) := by
    intro t ht
    obtain ⟨o, ho, ht⟩ := List.mem_flatMap.mp ht
    rw [Json.textsOfFields_eq, List.flatMap_map]
    exact List.mem_flatMap.mpr ⟨o, ho, List.mem_cons_of_mem _ (o.2.texts_subset_toJson ht)⟩
  exact (operations.append (.items Parameter.texts_subset_toJson _)).append (.entries _)

end PathItem

namespace Components

/-- The texts of the components that are no schemas. -/
def outerTexts (c : Components) : List String :=
  c.responses.textsWith Response.texts ++ c.parameters.textsWith Parameter.texts ++
    c.examples.textsWith Json.texts ++ c.requestBodies.textsWith RequestBody.texts ++
    c.headers.textsWith Json.texts ++ c.securitySchemes.textsWith Json.texts ++
    c.links.textsWith Json.texts ++ c.callbacks.textsWith Json.texts ++
    c.extensions.textsWith Json.texts

/-- Of the components all but the schemas are counted here, and all of that is written. -/
theorem outerTexts_subset_toJson (c : Components) : c.outerTexts ⊆ c.toJson.texts :=
  ((((((((Written.append_right (.map Response.texts_subset_toJson _)).append
    (.map Parameter.texts_subset_toJson _)).append (.values _)).append
    (.map RequestBody.texts_subset_toJson _)).append (.values _)).append (.values _)).append
    (.values _)).append (.values _)).append (.entries _)

end Components

namespace Document

/-- The texts of a document outside of its component schemas. -/
def outerTexts (d : Document) : List String :=
  d.openapi.toList ++ d.info.toList.flatMap Info.texts ++
    d.externalDocs.toList.flatMap Json.texts ++ d.servers.flatMap Server.texts ++
    d.security.flatMap SecurityRequirement.texts ++ d.tags.flatMap Tag.texts ++
    d.paths.textsWith PathItem.texts ++ d.components.toList.flatMap Components.outerTexts ++
    d.extensions.textsWith Json.texts

/-- The texts of a document. -/
def texts (d : Document) : List String :=
  d.outerTexts ++ d.componentsOrEmpty.schemas.flatMap fun entry => entry.2.texts

/-- All texts of a document outside of its component schemas are written. -/
theorem outerTexts_subset_toJson (d : Document) : d.outerTexts ⊆ d.toJson.texts := by
  have paths : Written (d.paths.textsWith PathItem.texts)
      [("paths", .obj (d.paths.mapValues PathItem.toJson))] :=
    .single (Written.mapValues PathItem.texts_subset_toJson _)
  refine Written.append ?_ (.entries _)
  refine Written.append ?_ (.optional Components.outerTexts_subset_toJson _)
  refine Written.append ?_ paths
  refine Written.append ?_ (.items Tag.texts_subset_toJson _)
  refine Written.append ?_ (.items SecurityRequirement.texts_subset_toJson _)
  refine Written.append ?_ (.items Server.texts_subset_toJson _)
  refine Written.append ?_ (.optional (fun _ => List.Subset.refl _) _)
  exact (Written.text _).append (.optional Info.texts_subset_toJson _)

end Document

end ApiAssembly
