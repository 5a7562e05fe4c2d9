import ApiAssembly.Proofs.Document.WithTexts
import ApiAssembly.Proofs.Reading.ReadsBack

/-!
# Proofs — Document — the keys of a document

`keyLists` of an object lists the keys of each map in it, at any depth, and for each object with
extensions the modelled keys of its kind together with the keys of its extensions.  A document keeps
its keys apart (`Document.KeysApart`) when no key stands twice in one of these lists.

An object is read back when its parts are and its own keys are apart (`readsBack_iff` of each kind
of object).  So when the texts of an object that is read back are replaced, nothing but the keys
decides whether what it becomes is read back too (`goesByKeys` of each kind).
-/

namespace ApiAssembly

open Draft (ReadsBack GoesByKeys)

variable (f : String → String)

/-- Replacing makes no value null, and a null stays one. -/
theorem Json.withTexts_eq_null_iff {j : Json} : j.withTexts f = .null ↔ j = .null := by
  cases j <;> simp [withTexts]

/-- Free values can be read back in the place of others when their keys are apart. -/
theorem Json.apart_optional_withTexts {o : Option Json}
    (h : ∀ j ∈ o, j ≠ .null ∧ Apart j.keyLists) :
    (∀ j ∈ o.map (withTexts f), j ≠ .null ∧ Apart j.keyLists) ↔
      Apart ((o.map (withTexts f)).toList.flatMap keyLists) := by
  cases o with
  | none => exact iff_of_true nofun apart_nil
  | some j =>
    have hnull : j.withTexts f ≠ .null := mt (j.withTexts_eq_null_iff f).mp (h j rfl).1
    simpa using fun _ => hnull

/-- A map of free values is read back when its keys and those in its values are apart. -/
theorem Keyed.readsBack_free_iff {m : Keyed Json} :
    (m.keys.Nodup ∧ ∀ e ∈ m, ReadsBack Draft.free id e.2) ↔
      Apart (m.keyListsWith Json.keyLists) := by
  rw [keyListsWith, apart_cons, apart_flatMap]
  exact and_congr_right fun _ => forall₂_congr fun _ _ => Draft.readsBack_free_iff

/-! ### Schemas -/

namespace Schema

/-- The keys of one node: those of its properties, those in its default, and its own. -/
def nodeKeyLists (n : Schema) : List (List String) :=
  Keyed.keys n.properties :: n.own.default.toList.flatMap Json.keyLists ++
    extensionKeyLists shape.names n.own.extensions

def keyLists (s : Schema) : List (List String) := s.nodes.flatMap nodeKeyLists

/-- The lists of keys of a schema are those of its node and of the schemas right below it. -/
theorem keyLists_eq (s : Schema) :
    s.keyLists = s.nodeKeyLists ++ ((s.properties.flatMap fun p => p.2.keyLists) ++
      s.items.toList.flatMap keyLists ++ s.allOf.flatMap keyLists) := by
  rw [keyLists, nodes_eq]
  simp only [List.flatMap_cons, List.flatMap_append, List.flatMap_assoc]
  rfl

/-- The keys of a tree are apart when those of a node and of the trees right below are. -/
theorem apart_keyLists_iff {s : Schema} :
    Apart s.keyLists ↔ Apart (s.own.default.toList.flatMap Json.keyLists) ∧
      Apart (Keyed.keyListsWith keyLists s.properties) ∧ Apart (s.allOf.flatMap keyLists) ∧
      Apart (s.items.toList.flatMap keyLists) ∧
      Apart (extensionKeyLists shape.names s.own.extensions) := by
  simp only [keyLists_eq s, nodeKeyLists, Keyed.keyListsWith, apart_append, apart_cons]
  tauto

/-- A schema is read back when it has no name, its default is not null, its properties have
different names, no extension has a modelled key, and all schemas below it are read back. -/
theorem readsBack_iff {s : Schema} :
    ReadsBack ofDraft toJson s ↔
      s.own.name = none ∧ (∀ j ∈ s.own.default, j ≠ .null ∧ Apart j.keyLists) ∧
        ((Keyed.keys s.properties).Nodup ∧ ∀ p ∈ s.properties, ReadsBack ofDraft toJson p.2) ∧
        (∀ e ∈ s.allOf, ReadsBack ofDraft toJson e) ∧
        (∀ t ∈ s.items, ReadsBack ofDraft toJson t) ∧
        Apart (extensionKeyLists shape.names s.own.extensions) := by
  rw [shape_describes.readsBack_iff]
  constructor
  · rintro ⟨hset, -, -, -, -, hdefault, hproperties, -, hallOf, hitems, hext⟩
    exact ⟨congrArg (fun s => s.own.name) hset, Cell.readsBack_free_iff.mp hdefault,
      Cell.readsBack_map_iff.mp hproperties, Cell.readsBack_list_iff.mp hallOf,
      (Cell.readsBack_optional_iff_of (by nofun)).mp hitems,
      (Rest.exists_sound_kept_iff (by decide)).mp hext⟩
  · rintro ⟨hname, hdefault, hproperties, hallOf, hitems, hext⟩
    have htype : ∀ o : Option SchemaType,
        (Cell.optional "type" SchemaType.ofDraft SchemaType.toJson).ReadsBack o := fun o =>
      (Cell.readsBack_optional_iff_of (by nofun)).mpr fun t _ => t.ofDraft_toJson
    refine ⟨?_, Cell.readsBack_text _, htype _, Cell.readsBack_scalarText _,
      Cell.readsBack_scalarText _, Cell.readsBack_free_iff.mpr hdefault,
      Cell.readsBack_map_iff.mpr hproperties, Cell.readsBack_texts _,
      Cell.readsBack_list_iff.mpr hallOf,
      (Cell.readsBack_optional_iff_of (by nofun)).mpr hitems,
      (Rest.exists_sound_kept_iff (by decide)).mpr hext⟩
    obtain ⟨⟨_, _, _, _, _, _, _, _⟩, _, _, _⟩ := s
    obtain rfl := hname
    rfl

/-- Whether a schema is read back after its texts were replaced is a matter of its keys alone. -/
theorem goesByKeys (s : Schema) : GoesByKeys ofDraft toJson (withTexts f) keyLists s := by
  induction s using induct with
  | node s hp hi ha =>
    intro hs
    obtain ⟨hname, hdefault, ⟨-, hproperties⟩, hallOf, hitems, -⟩ := readsBack_iff.mp hs
    rw [readsBack_iff, apart_keyLists_iff, withTexts_eq]
    exact (and_iff_right hname).trans <|
      and_congr (Json.apart_optional_withTexts f hdefault) <|
      and_congr (GoesByKeys.map hp hproperties f) <| and_congr (GoesByKeys.list ha hallOf) <|
      and_congr_left' (GoesByKeys.optional hi hitems)

end Schema

/-! ### Objects without a map -/

namespace SecurityRequirement

def keyLists (r : SecurityRequirement) : List (List String) := [r.keys]

/-- A requirement is read back when its schemes are different. -/
theorem readsBack_iff {r : SecurityRequirement} :
    ReadsBack ofDraft toJson r ↔ Apart r.keyLists := by
  rw [keyLists, apart_cons, and_iff_left apart_nil]
  refine Draft.readsBack_mapOf_iff.trans (and_iff_left fun e _ => ?_)
  exact Draft.readsBack_listOf_iff.mpr fun _ _ => rfl

theorem goesByKeys (r : SecurityRequirement) : GoesByKeys ofDraft toJson (withTexts f) keyLists r :=
  fun _ => readsBack_iff

end SecurityRequirement

namespace Info

def keyLists (i : Info) : List (List String) := extensionKeyLists shape.names i.extensions

/-- Of an info only the keys of its extensions can stand in the way. -/
theorem readsBack_iff {i : Info} : ReadsBack ofDraft toJson i ↔ Apart i.keyLists := by
  rw [shape_describes.readsBack_iff, keyLists, ← Rest.exists_sound_kept_iff (by decide)]
  refine ⟨fun ⟨_, _, _, _, hext⟩ => hext, fun hext => ?_⟩
  exact ⟨rfl, Cell.readsBack_always_iff.mpr rfl, Cell.readsBack_always_iff.mpr rfl,
    Cell.readsBack_scalarText _, hext⟩

theorem goesByKeys (i : Info) : GoesByKeys ofDraft toJson (withTexts f) keyLists i :=
  fun _ => readsBack_iff

end Info

namespace Tag

def keyLists (t : Tag) : List (List String) := extensionKeyLists shape.names t.extensions

/-- Of a tag only the keys of its extensions can stand in the way. -/
theorem readsBack_iff {t : Tag} : ReadsBack ofDraft toJson t ↔ Apart t.keyLists := by
  rw [shape_describes.readsBack_iff, keyLists, ← Rest.exists_sound_kept_iff (by decide)]
  refine ⟨fun ⟨_, _, _, hext⟩ => hext, fun hext => ?_⟩
  exact ⟨rfl, Cell.readsBack_always_iff.mpr rfl, Cell.readsBack_scalarText _, hext⟩

theorem goesByKeys (t : Tag) : GoesByKeys ofDraft toJson (withTexts f) keyLists t :=
  fun _ => readsBack_iff

end Tag

namespace Server

def keyLists (s : Server) : List (List String) := extensionKeyLists shape.names s.extensions

/-- Of a server only the keys of its extensions can stand in the way. -/
theorem readsBack_iff {s : Server} : ReadsBack ofDraft toJson s ↔ Apart s.keyLists := by
  rw [shape_describes.readsBack_iff, keyLists, ← Rest.exists_sound_kept_iff (by decide)]
  refine ⟨fun ⟨_, _, _, hext⟩ => hext, fun hext => ?_⟩
  exact ⟨rfl, Cell.readsBack_always_iff.mpr rfl, Cell.readsBack_scalarText _, hext⟩

theorem goesByKeys (s : Server) : GoesByKeys ofDraft toJson (withTexts f) keyLists s :=
  fun _ => readsBack_iff

end Server

/-! ### Parameters, bodies and responses -/

namespace Parameter

def keyLists (p : Parameter) : List (List String) :=
  p.schema.toList.flatMap Schema.keyLists ++ extensionKeyLists shape.names p.extensions

/-- A parameter is read back when its schema is and its own keys are apart. -/
theorem readsBack_iff {p : Parameter} :
    ReadsBack ofDraft toJson p ↔
      (∀ s ∈ p.schema, ReadsBack Schema.ofDraft Schema.toJson s) ∧
        Apart (extensionKeyLists shape.names p.extensions) := by
  rw [shape_describes.readsBack_iff, ← Rest.exists_sound_kept_iff (by decide)]
  constructor
  · rintro ⟨-, -, -, -, -, -, hschema, hext⟩
    exact ⟨(Cell.readsBack_optional_iff_of (by nofun)).mp hschema, hext⟩
  · rintro ⟨hschema, hext⟩
    exact ⟨rfl, Cell.readsBack_text _, Cell.readsBack_scalarText _, Cell.readsBack_text _,
      Cell.readsBack_scalarText _, Cell.readsBack_flag _,
      (Cell.readsBack_optional_iff_of (by nofun)).mpr hschema, hext⟩

theorem goesByKeys (p : Parameter) : GoesByKeys ofDraft toJson (withTexts f) keyLists p := by
  intro hp
  obtain ⟨hschema, -⟩ := readsBack_iff.mp hp
  rw [readsBack_iff]
  exact and_iff_apart_append (GoesByKeys.optional (fun s _ => s.goesByKeys f) hschema) Iff.rfl

end Parameter

namespace MediaType

def keyLists (m : MediaType) : List (List String) :=
  m.schema.toList.flatMap Schema.keyLists ++ extensionKeyLists shape.names m.extensions

/-- A media type is read back when its schema is and its own keys are apart. -/
theorem readsBack_iff {m : MediaType} :
    ReadsBack ofDraft toJson m ↔
      (∀ s ∈ m.schema, ReadsBack Schema.ofDraft Schema.toJson s) ∧
        Apart (extensionKeyLists shape.names m.extensions) := by
  rw [shape_describes.readsBack_iff, ← Rest.exists_sound_kept_iff (by decide)]
  constructor
  · rintro ⟨-, hschema, hext⟩
    exact ⟨(Cell.readsBack_optional_iff_of (by nofun)).mp hschema, hext⟩
  · rintro ⟨hschema, hext⟩
    exact ⟨rfl, (Cell.readsBack_optional_iff_of (by nofun)).mpr hschema, hext⟩

theorem goesByKeys (m : MediaType) : GoesByKeys ofDraft toJson (withTexts f) keyLists m := by
  intro hm
  obtain ⟨hschema, -⟩ := readsBack_iff.mp hm
  rw [readsBack_iff]
  exact and_iff_apart_append (GoesByKeys.optional (fun s _ => s.goesByKeys f) hschema) Iff.rfl

end MediaType

namespace RequestBody

def keyLists (b : RequestBody) : List (List String) :=
  b.content.keyListsWith MediaType.keyLists ++ extensionKeyLists shape.names b.extensions

/-- A request body is read back when its media types are, and none of them comes twice. -/
theorem readsBack_iff {b : RequestBody} :
    ReadsBack ofDraft toJson b ↔
      (b.content.keys.Nodup ∧ ∀ e ∈ b.content, ReadsBack MediaType.ofDraft MediaType.toJson e.2) ∧
        Apart (extensionKeyLists shape.names b.extensions) := by
  rw [shape_describes.readsBack_iff, ← Rest.exists_sound_kept_iff (by decide)]
  constructor
  · rintro ⟨-, -, -, hcontent, -, hext⟩
    exact ⟨Cell.readsBack_map_iff.mp hcontent, hext⟩
  · rintro ⟨hcontent, hext⟩
    exact ⟨rfl, Cell.readsBack_text _, Cell.readsBack_scalarText _,
      Cell.readsBack_map_iff.mpr hcontent, Cell.readsBack_flag _, hext⟩

/-- Two media types of a body may get one name, and then it is not read back. -/
theorem goesByKeys (b : RequestBody) : GoesByKeys ofDraft toJson (withTexts f) keyLists b := by
  intro hb
  obtain ⟨⟨-, hcontent⟩, -⟩ := readsBack_iff.mp hb
  rw [readsBack_iff]
  exact and_iff_apart_append (GoesByKeys.map (fun e _ => e.2.goesByKeys f) hcontent f) Iff.rfl

end RequestBody

namespace Response

def keyLists (r : Response) : List (List String) :=
  r.content.keyListsWith MediaType.keyLists ++ extensionKeyLists shape.names r.extensions

/-- A response is read back when its media types are, and none of them comes twice. -/
theorem readsBack_iff {r : Response} :
    ReadsBack ofDraft toJson r ↔
      (r.content.keys.Nodup ∧ ∀ e ∈ r.content, ReadsBack MediaType.ofDraft MediaType.toJson e.2) ∧
        Apart (extensionKeyLists shape.names r.extensions) := by
  rw [shape_describes.readsBack_iff, ← Rest.exists_sound_kept_iff (by decide)]
  constructor
  · rintro ⟨-, -, -, hcontent, hext⟩
    exact ⟨Cell.readsBack_map_iff.mp hcontent, hext⟩
  · rintro ⟨hcontent, hext⟩
    exact ⟨rfl, Cell.readsBack_text _, Cell.readsBack_scalarText _,
      Cell.readsBack_map_iff.mpr hcontent, hext⟩

theorem goesByKeys (r : Response) : GoesByKeys ofDraft toJson (withTexts f) keyLists r := by
  intro hr
  obtain ⟨⟨-, hcontent⟩, -⟩ := readsBack_iff.mp hr
  rw [readsBack_iff]
  exact and_iff_apart_append (GoesByKeys.map (fun e _ => e.2.goesByKeys f) hcontent f) Iff.rfl

end Response

/-! ### Operations and paths -/

namespace Operation

def keyLists (o : Operation) : List (List String) :=
  o.parameters.flatMap Parameter.keyLists ++ o.requestBody.toList.flatMap RequestBody.keyLists ++
    o.responses.keyListsWith Response.keyLists ++
    (o.security.toList.flatMap fun rs => rs.flatMap SecurityRequirement.keyLists) ++
    extensionKeyLists shape.names o.extensions

/-- An operation is read back when all its parts are, and no status comes twice. -/
theorem readsBack_iff {o : Operation} :
    ReadsBack ofDraft toJson o ↔
      (∀ p ∈ o.parameters, ReadsBack Parameter.ofDraft Parameter.toJson p) ∧
        (∀ b ∈ o.requestBody, ReadsBack RequestBody.ofDraft RequestBody.toJson b) ∧
        (o.responses.keys.Nodup ∧
          ∀ e ∈ o.responses, ReadsBack Response.ofDraft Response.toJson e.2) ∧
        (∀ rs ∈ o.security, ReadsBack (Draft.listOf SecurityRequirement.ofDraft)
          (fun rs => .arr (rs.map SecurityRequirement.toJson)) rs) ∧
        Apart (extensionKeyLists shape.names o.extensions) := by
  rw [shape_describes.readsBack_iff, ← Rest.exists_sound_kept_iff (by decide)]
  constructor
  · rintro ⟨-, -, -, -, -, hparameters, hbody, hresponses, -, hsecurity, hext⟩
    exact ⟨Cell.readsBack_list_iff.mp hparameters,
      (Cell.readsBack_optional_iff_of (by nofun)).mp hbody, Cell.readsBack_map_iff.mp hresponses,
      (Cell.readsBack_optional_iff_of (by nofun)).mp hsecurity, hext⟩
  · rintro ⟨hparameters, hbody, hresponses, hsecurity, hext⟩
    exact ⟨rfl, Cell.readsBack_texts _, Cell.readsBack_scalarText _, Cell.readsBack_scalarText _,
      Cell.readsBack_scalarText _, Cell.readsBack_list_iff.mpr hparameters,
      (Cell.readsBack_optional_iff_of (by nofun)).mpr hbody, Cell.readsBack_map_iff.mpr hresponses,
      Cell.readsBack_flag _, (Cell.readsBack_optional_iff_of (by nofun)).mpr hsecurity, hext⟩

/-- Two statuses of an operation may get one name, and then it is not read back. -/
theorem goesByKeys (o : Operation) : GoesByKeys ofDraft toJson (withTexts f) keyLists o := by
  have hrequirements : ∀ rs : List SecurityRequirement,
      GoesByKeys (Draft.listOf SecurityRequirement.ofDraft)
        (fun rs => .arr (rs.map SecurityRequirement.toJson))
        (List.map (SecurityRequirement.withTexts f)) (List.flatMap SecurityRequirement.keyLists)
        rs := fun rs hrs => Draft.readsBack_listOf_iff.trans
      (GoesByKeys.list (fun r _ => r.goesByKeys f) (Draft.readsBack_listOf_iff.mp hrs))
  intro ho
  obtain ⟨hparameters, hbody, ⟨-, hresponses⟩, hsecurity, -⟩ := readsBack_iff.mp ho
  rw [readsBack_iff, keyLists]
  simp only [List.append_assoc]
  exact and_iff_apart_append (GoesByKeys.list (fun p _ => p.goesByKeys f) hparameters) <|
    and_iff_apart_append (GoesByKeys.optional (fun b _ => b.goesByKeys f) hbody) <|
    and_iff_apart_append (GoesByKeys.map (fun e _ => e.2.goesByKeys f) hresponses f) <|
    and_iff_apart_append (GoesByKeys.optional (fun rs _ => hrequirements rs) hsecurity) Iff.rfl

end Operation

namespace PathItem

def keyLists (p : PathItem) : List (List String) :=
  (p.operations.flatMap fun o => o.2.keyLists) ++ p.parameters.flatMap Parameter.keyLists ++
    extensionKeyLists shape.names p.extensions

/-- A path item is read back when its operations and parameters are. -/
theorem readsBack_iff {p : PathItem} :
    ReadsBack ofDraft toJson p ↔
      (∀ m, ∀ o ∈ p.operation m, ReadsBack Operation.ofDraft Operation.toJson o) ∧
        (∀ q ∈ p.parameters, ReadsBack Parameter.ofDraft Parameter.toJson q) ∧
        Apart (extensionKeyLists shape.names p.extensions) := by
  have hcell : ∀ {m : Method} {o : Option Operation}, (methodCell m).ReadsBack o ↔
      ∀ a ∈ o, ReadsBack Operation.ofDraft Operation.toJson a :=
    Cell.readsBack_optional_iff_of (by nofun)
  rw [shape_describes.readsBack_iff, ← Rest.exists_sound_kept_iff (by decide)]
  constructor
  · rintro ⟨-, hget, hput, hpost, hdelete, hoptions, hhead, hpatch, htrace, hparameters, hext⟩
    refine ⟨fun m => ?_, Cell.readsBack_list_iff.mp hparameters, hext⟩
    cases m with
    | get => exact hcell.mp hget
    | put => exact hcell.mp hput
    | post => exact hcell.mp hpost
    | delete => exact hcell.mp hdelete
    | options => exact hcell.mp hoptions
    | head => exact hcell.mp hhead
    | patch => exact hcell.mp hpatch
    | trace => exact hcell.mp htrace
  · rintro ⟨hoperations, hparameters, hext⟩
    exact ⟨rfl, hcell.mpr (hoperations .get), hcell.mpr (hoperations .put),
      hcell.mpr (hoperations .post), hcell.mpr (hoperations .delete),
      hcell.mpr (hoperations .options), hcell.mpr (hoperations .head),
      hcell.mpr (hoperations .patch), hcell.mpr (hoperations .trace),
      Cell.readsBack_list_iff.mpr hparameters, hext⟩

theorem goesByKeys (p : PathItem) : GoesByKeys ofDraft toJson (withTexts f) keyLists p := by
  intro hp
  obtain ⟨hoperations, hparameters, -⟩ := readsBack_iff.mp hp
  have hoperations' : (∀ m, ∀ o ∈ (p.withTexts f).operation m,
      ReadsBack Operation.ofDraft Operation.toJson o) ↔
        Apart ((p.withTexts f).operations.flatMap fun o => o.2.keyLists) := by
    rw [apart_flatMap, Prod.forall]
    refine forall_congr' fun m => ?_
    simp only [mem_operations, operation_withTexts]
    rw [GoesByKeys.optional (fun o _ => o.goesByKeys f) (hoperations m), apart_flatMap]
    simp only [Option.mem_toList]
  rw [readsBack_iff, keyLists]
  simp only [List.append_assoc]
  exact and_iff_apart_append hoperations' <|
    and_iff_apart_append (GoesByKeys.list (fun q _ => q.goesByKeys f) hparameters) Iff.rfl

end PathItem

/-! ### Documents -/

namespace Components

def keyLists (c : Components) : List (List String) :=
  c.schemas.keyListsWith Schema.keyLists ++ c.responses.keyListsWith Response.keyLists ++
    c.parameters.keyListsWith Parameter.keyLists ++ c.examples.keyListsWith Json.keyLists ++
    c.requestBodies.keyListsWith RequestBody.keyLists ++ c.headers.keyListsWith Json.keyLists ++
    c.securitySchemes.keyListsWith Json.keyLists ++ c.links.keyListsWith Json.keyLists ++
    c.callbacks.keyListsWith Json.keyLists ++ extensionKeyLists shape.names c.extensions

/-- Components are read back when each of the nine maps has different keys and values that are read
back. -/
theorem readsBack_iff {c : Components} :
    ReadsBack ofDraft toJson c ↔
      (c.schemas.keys.Nodup ∧ ∀ e ∈ c.schemas, ReadsBack Schema.ofDraft Schema.toJson e.2) ∧
        (c.responses.keys.Nodup ∧
          ∀ e ∈ c.responses, ReadsBack Response.ofDraft Response.toJson e.2) ∧
        (c.parameters.keys.Nodup ∧
          ∀ e ∈ c.parameters, ReadsBack Parameter.ofDraft Parameter.toJson e.2) ∧
        Apart (c.examples.keyListsWith Json.keyLists) ∧
        (c.requestBodies.keys.Nodup ∧
          ∀ e ∈ c.requestBodies, ReadsBack RequestBody.ofDraft RequestBody.toJson e.2) ∧
        Apart (c.headers.keyListsWith Json.keyLists) ∧
        Apart (c.securitySchemes.keyListsWith Json.keyLists) ∧
        Apart (c.links.keyListsWith Json.keyLists) ∧
        Apart (c.callbacks.keyListsWith Json.keyLists) ∧
        Apart (extensionKeyLists shape.names c.extensions) := by
  have free : ∀ {name : String} {m : Keyed Json},
      (Cell.map name Draft.free id).ReadsBack m ↔ Apart (m.keyListsWith Json.keyLists) :=
    Cell.readsBack_map_iff.trans Keyed.readsBack_free_iff
  rw [shape_describes.readsBack_iff, ← Rest.exists_sound_kept_iff (by decide)]
  constructor
  · rintro ⟨-, hschemas, hresponses, hparameters, hexamples, hbodies, hheaders, hschemes, hlinks,
      hcallbacks, hext⟩
    exact ⟨Cell.readsBack_map_iff.mp hschemas, Cell.readsBack_map_iff.mp hresponses,
      Cell.readsBack_map_iff.mp hparameters, free.mp hexamples, Cell.readsBack_map_iff.mp hbodies,
      free.mp hheaders, free.mp hschemes, free.mp hlinks, free.mp hcallbacks, hext⟩
  · rintro ⟨hschemas, hresponses, hparameters, hexamples, hbodies, hheaders, hschemes, hlinks,
      hcallbacks, hext⟩
    exact ⟨rfl, Cell.readsBack_map_iff.mpr hschemas, Cell.readsBack_map_iff.mpr hresponses,
      Cell.readsBack_map_iff.mpr hparameters, free.mpr hexamples,
      Cell.readsBack_map_iff.mpr hbodies, free.mpr hheaders, free.mpr hschemes, free.mpr hlinks,
      free.mpr hcallbacks, hext⟩

/-- Two components of one kind may get one name, and then they are not read back. -/
theorem goesByKeys (c : Components) : GoesByKeys ofDraft toJson (withTexts f) keyLists c := by
  intro hc
  obtain ⟨⟨-, hschemas⟩, ⟨-, hresponses⟩, ⟨-, hparameters⟩, -, ⟨-, hbodies⟩, -⟩ :=
    readsBack_iff.mp hc
  rw [readsBack_iff, keyLists]
  simp only [List.append_assoc]
  exact and_iff_apart_append (GoesByKeys.map (fun e _ => e.2.goesByKeys f) hschemas f) <|
    and_iff_apart_append (GoesByKeys.map (fun e _ => e.2.goesByKeys f) hresponses f) <|
    and_iff_apart_append (GoesByKeys.map (fun e _ => e.2.goesByKeys f) hparameters f) <|
    and_iff_apart_append Iff.rfl <|
    and_iff_apart_append (GoesByKeys.map (fun e _ => e.2.goesByKeys f) hbodies f) <|
    and_iff_apart_append Iff.rfl <| and_iff_apart_append Iff.rfl <|
    and_iff_apart_append Iff.rfl <| and_iff_apart_append Iff.rfl Iff.rfl

end Components

namespace Document

def keyLists (d : Document) : List (List String) :=
  d.info.toList.flatMap Info.keyLists ++ d.externalDocs.toList.flatMap Json.keyLists ++
    d.servers.flatMap Server.keyLists ++ d.security.flatMap SecurityRequirement.keyLists ++
    d.tags.flatMap Tag.keyLists ++ d.paths.keyListsWith PathItem.keyLists ++
    d.components.toList.flatMap Components.keyLists ++ extensionKeyLists shape.names d.extensions

/-- No map of the document, at any depth, has a key twice, and no object of it has an extension
under a modelled key. -/
def KeysApart (d : Document) : Prop := Apart d.keyLists

instance (d : Document) : Decidable d.KeysApart := inferInstanceAs (Decidable (Apart _))

/-- A document is read back when all its parts are and no path comes twice. -/
theorem readsBack_iff {d : Document} :
    ReadsBack ofDraft toJson d ↔
      (∀ i ∈ d.info, ReadsBack Info.ofDraft Info.toJson i) ∧
        (∀ j ∈ d.externalDocs, j ≠ .null ∧ Apart j.keyLists) ∧
        (∀ s ∈ d.servers, ReadsBack Server.ofDraft Server.toJson s) ∧
        (∀ r ∈ d.security, ReadsBack SecurityRequirement.ofDraft SecurityRequirement.toJson r) ∧
        (∀ t ∈ d.tags, ReadsBack Tag.ofDraft Tag.toJson t) ∧
        (d.paths.keys.Nodup ∧ ∀ e ∈ d.paths, ReadsBack PathItem.ofDraft PathItem.toJson e.2) ∧
        (∀ c ∈ d.components, ReadsBack Components.ofDraft Components.toJson c) ∧
        Apart (extensionKeyLists shape.names d.extensions) := by
  rw [shape_describes.readsBack_iff, ← Rest.exists_sound_kept_iff (by decide)]
  constructor
  · rintro ⟨-, -, hinfo, hdocs, hservers, hsecurity, htags, hpaths, hcomponents, hext⟩
    exact ⟨(Cell.readsBack_optional_iff_of (by nofun)).mp hinfo, Cell.readsBack_free_iff.mp hdocs,
      Cell.readsBack_list_iff.mp hservers, Cell.readsBack_list_iff.mp hsecurity,
      Cell.readsBack_list_iff.mp htags,
      Draft.readsBack_mapOf_iff.mp (Cell.readsBack_always_iff.mp hpaths),
      (Cell.readsBack_optional_iff_of (by nofun)).mp hcomponents, hext⟩
  · rintro ⟨hinfo, hdocs, hservers, hsecurity, htags, hpaths, hcomponents, hext⟩
    exact ⟨rfl, Cell.readsBack_scalarText _,
      (Cell.readsBack_optional_iff_of (by nofun)).mpr hinfo, Cell.readsBack_free_iff.mpr hdocs,
      Cell.readsBack_list_iff.mpr hservers, Cell.readsBack_list_iff.mpr hsecurity,
      Cell.readsBack_list_iff.mpr htags,
      Cell.readsBack_always_iff.mpr (Draft.readsBack_mapOf_iff.mpr hpaths),
      (Cell.readsBack_optional_iff_of (by nofun)).mpr hcomponents, hext⟩

/-- **A document that is read back is read back with its texts replaced exactly when its keys are
then apart.** -/
theorem goesByKeys (d : Document) : GoesByKeys ofDraft toJson (withTexts f) keyLists d := by
  intro hd
  obtain ⟨hinfo, hdocs, hservers, hsecurity, htags, ⟨-, hpaths⟩, hcomponents, -⟩ :=
    readsBack_iff.mp hd
  rw [readsBack_iff, keyLists]
  simp only [List.append_assoc]
  exact and_iff_apart_append (GoesByKeys.optional (fun i _ => i.goesByKeys f) hinfo) <|
    and_iff_apart_append (Json.apart_optional_withTexts f hdocs) <|
    and_iff_apart_append (GoesByKeys.list (fun s _ => s.goesByKeys f) hservers) <|
    and_iff_apart_append (GoesByKeys.list (fun r _ => r.goesByKeys f) hsecurity) <|
    and_iff_apart_append (GoesByKeys.list (fun t _ => t.goesByKeys f) htags) <|
    and_iff_apart_append (GoesByKeys.map (fun e _ => e.2.goesByKeys f) hpaths f) <|
    and_iff_apart_append (GoesByKeys.optional (fun c _ => c.goesByKeys f) hcomponents) Iff.rfl

end Document

end ApiAssembly
