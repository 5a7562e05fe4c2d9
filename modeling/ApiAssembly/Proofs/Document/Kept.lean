import ApiAssembly.Proofs.Document.RoundTrip
import ApiAssembly.Proofs.Reading.Roles

/-!
# Proofs — Document — reading a document keeps what stands in it

Kind by kind from the inside out, the cells of an object are the fields of its kind, in the order in
which they are written, and every cell keeps what its field is to keep.  So a document that was read
from a text without repeated keys holds, at every place, what the text has there
(`Document.keeps_iff`): each free value as it is, and each modelled value that is neither null nor
empty.  The one exception is a null as the default of a schema or as the external documentation of
the document: these fields hold any value, but where a null stands in the text nothing is written
(`Document.not_keeps_nullDefault`).
-/

namespace ApiAssembly

/-- A requirement is a map of lists of texts. -/
theorem SecurityRequirement.readKeeps (d : Draft) :
    d.ReadKeeps (.map (.list .text)) ofDraft toJson :=
  .mapOf fun _ _ => .listOf fun x _ => .text x

namespace Schema

/-- The cells of a schema keep what its fields are to keep, when the schemas below it do. -/
theorem keeps_cells {d : Draft} (h : d.ReadKeeps (.object .schema) ofDraft toJson)
    (hchildren : ∀ x ∈ d.children, x.ReadKeeps (.object .schema) ofDraft toJson) :
    List.Forall₂ (fun c f => c.name = f.1 ∧ c.Keeps f.2 d) cells Kind.schema.fields := by
  simp only [cells, Kind.fields, List.forall₂_cons, List.forall₂_nil_right_iff]
  exact ⟨⟨rfl, .text d⟩, ⟨rfl, .optional (.type d)⟩, ⟨rfl, .scalarText d⟩, ⟨rfl, .scalarText d⟩,
    ⟨rfl, .value d⟩, ⟨rfl, .map hchildren⟩, ⟨rfl, .list fun x _ => .text x⟩,
    ⟨rfl, .list hchildren⟩, ⟨rfl, .optional h⟩, trivial⟩

/-- Reading a schema keeps what stands in it, by induction on the draft. -/
theorem readKeeps (d : Draft) : d.ReadKeeps (.object .schema) ofDraft toJson := by
  have below : ∀ x : Draft, sizeOf x < sizeOf d → x.ReadKeeps (.object .schema) ofDraft toJson :=
    fun x _ => readKeeps x
  -- As for `roundTrips`, a cell looks at two levels below the draft.
  refine shape_describes.readKeeps Rest.keeps_kept fun x hx => ?_
  have hlt := Draft.sizeOf_lt_of_mem_children hx
  exact keeps_cells (below x hlt) fun y hy =>
    below y (Nat.lt_trans (Draft.sizeOf_lt_of_mem_children hy) hlt)
termination_by sizeOf d

end Schema

/-- An info is made of texts. -/
theorem Info.readKeeps (d : Draft) : d.ReadKeeps (.object .info) ofDraft toJson := by
  refine shape_describes.readKeeps Rest.keeps_kept fun x _ => ?_
  simp only [shape, Kind.fields, List.forall₂_cons, List.forall₂_nil_right_iff]
  exact ⟨⟨rfl, .always (.scalarText x)⟩, ⟨rfl, .always (.scalarText x)⟩, ⟨rfl, .scalarText x⟩,
    trivial⟩

theorem Tag.readKeeps (d : Draft) : d.ReadKeeps (.object .tag) ofDraft toJson := by
  refine shape_describes.readKeeps Rest.keeps_kept fun x _ => ?_
  simp only [shape, Kind.fields, List.forall₂_cons, List.forall₂_nil_right_iff]
  exact ⟨⟨rfl, .always (.scalarText x)⟩, ⟨rfl, .scalarText x⟩, trivial⟩

theorem Server.readKeeps (d : Draft) : d.ReadKeeps (.object .server) ofDraft toJson := by
  refine shape_describes.readKeeps Rest.keeps_kept fun x _ => ?_
  simp only [shape, Kind.fields, List.forall₂_cons, List.forall₂_nil_right_iff]
  exact ⟨⟨rfl, .always (.text x)⟩, ⟨rfl, .scalarText x⟩, trivial⟩

/-- A parameter is kept since its schema is. -/
theorem Parameter.readKeeps (d : Draft) : d.ReadKeeps (.object .parameter) ofDraft toJson := by
  refine shape_describes.readKeeps Rest.keeps_kept fun x _ => ?_
  simp only [shape, Kind.fields, List.forall₂_cons, List.forall₂_nil_right_iff]
  exact ⟨⟨rfl, .text x⟩, ⟨rfl, .scalarText x⟩, ⟨rfl, .text x⟩, ⟨rfl, .scalarText x⟩,
    ⟨rfl, .flag x⟩, ⟨rfl, .optional (Schema.readKeeps x)⟩, trivial⟩

theorem MediaType.readKeeps (d : Draft) : d.ReadKeeps (.object .mediaType) ofDraft toJson := by
  refine shape_describes.readKeeps Rest.keeps_kept fun x _ => ?_
  simp only [shape, Kind.fields, List.forall₂_cons, List.forall₂_nil_right_iff]
  exact ⟨⟨rfl, .optional (Schema.readKeeps x)⟩, trivial⟩

/-- A request body is kept since its media types are. -/
theorem RequestBody.readKeeps (d : Draft) :
    d.ReadKeeps (.object .requestBody) ofDraft toJson := by
  refine shape_describes.readKeeps Rest.keeps_kept fun x _ => ?_
  simp only [shape, Kind.fields, List.forall₂_cons, List.forall₂_nil_right_iff]
  exact ⟨⟨rfl, .text x⟩, ⟨rfl, .scalarText x⟩, ⟨rfl, .map fun y _ => MediaType.readKeeps y⟩,
    ⟨rfl, .flag x⟩, trivial⟩

theorem Response.readKeeps (d : Draft) : d.ReadKeeps (.object .response) ofDraft toJson := by
  refine shape_describes.readKeeps Rest.keeps_kept fun x _ => ?_
  simp only [shape, Kind.fields, List.forall₂_cons, List.forall₂_nil_right_iff]
  exact ⟨⟨rfl, .text x⟩, ⟨rfl, .scalarText x⟩, ⟨rfl, .map fun y _ => MediaType.readKeeps y⟩,
    trivial⟩

/-- An operation is kept since its parameters, body and responses are. -/
theorem Operation.readKeeps (d : Draft) : d.ReadKeeps (.object .operation) ofDraft toJson := by
  refine shape_describes.readKeeps Rest.keeps_kept fun x _ => ?_
  simp only [shape, Kind.fields, List.forall₂_cons, List.forall₂_nil_right_iff]
  exact ⟨⟨rfl, .list fun y _ => .text y⟩, ⟨rfl, .scalarText x⟩, ⟨rfl, .scalarText x⟩,
    ⟨rfl, .scalarText x⟩, ⟨rfl, .list fun y _ => Parameter.readKeeps y⟩,
    ⟨rfl, .optional (RequestBody.readKeeps x)⟩, ⟨rfl, .map fun y _ => Response.readKeeps y⟩,
    ⟨rfl, .flag x⟩, ⟨rfl, .optional (.listOf fun y _ => SecurityRequirement.readKeeps y)⟩, trivial⟩

theorem PathItem.readKeeps (d : Draft) : d.ReadKeeps (.object .pathItem) ofDraft toJson := by
  refine shape_describes.readKeeps Rest.keeps_kept fun x _ => List.rel_append ?methods ?parameters
  case methods =>
    rw [List.forall₂_map_left_iff, List.forall₂_map_right_iff, List.forall₂_same]
    exact fun m _ => ⟨rfl, .optional (Operation.readKeeps x)⟩
  case parameters => exact .cons ⟨rfl, .list fun y _ => Parameter.readKeeps y⟩ .nil

/-- Components are maps, of schemas or of free values. -/
theorem Components.readKeeps (d : Draft) : d.ReadKeeps (.object .components) ofDraft toJson := by
  refine shape_describes.readKeeps Rest.keeps_kept fun x _ => ?_
  have free : ∀ {name : String}, (Cell.map name Draft.free id).Keeps (.map .free) x :=
    .map fun y _ => .free y
  simp only [shape, Kind.fields, List.forall₂_cons, List.forall₂_nil_right_iff]
  exact ⟨⟨rfl, .map fun y _ => Schema.readKeeps y⟩, ⟨rfl, .map fun y _ => Response.readKeeps y⟩,
    ⟨rfl, .map fun y _ => Parameter.readKeeps y⟩, ⟨rfl, free⟩,
    ⟨rfl, .map fun y _ => RequestBody.readKeeps y⟩, ⟨rfl, free⟩, ⟨rfl, free⟩, ⟨rfl, free⟩,
    ⟨rfl, free⟩, trivial⟩

namespace Document

/-- A document is kept since its paths and components are. -/
theorem readKeeps (d : Draft) : d.ReadKeeps (.object .document) ofDraft toJson := by
  refine shape_describes.readKeeps Rest.keeps_kept fun x _ => ?_
  simp only [shape, Kind.fields, List.forall₂_cons, List.forall₂_nil_right_iff]
  exact ⟨⟨rfl, .scalarText x⟩, ⟨rfl, .optional (Info.readKeeps x)⟩, ⟨rfl, .value x⟩,
    ⟨rfl, .list fun y _ => Server.readKeeps y⟩,
    ⟨rfl, .list fun y _ => SecurityRequirement.readKeeps y⟩,
    ⟨rfl, .list fun y _ => Tag.readKeeps y⟩,
    ⟨rfl, .always (.mapOf fun y _ => PathItem.readKeeps y)⟩,
    ⟨rfl, .optional (Components.readKeeps x)⟩, trivial⟩

/-- **What reading a document keeps.**  At every place of a text without repeated keys that is read
as a document, what is written of the document holds what the text has there, unless that is a null
in a field for a free value. -/
theorem keeps_iff {text : String} {doc : Document} (h : read text = .ok doc)
    (hkeys : (Draft.read text).KeysApart) {p : Place} {r : Role} {x : Draft}
    (hr : (Role.object .document).at? p = some r) (hx : (Draft.read text).at? p = some x) :
    r.Keeps x (doc.toJson.at? p) ↔ ¬ (r = .value ∧ x = .null) :=
  readKeeps (Draft.read text) hkeys doc h p r x hr hx

/-- A schema that has a null as its default, and one under a keyword that is not modelled. -/
def nullDefault : String :=
  "\x7b\"components\":\x7b\"schemas\":\x7b\"Pet\":" ++
    "\x7b\"default\":null,\"x-pet\":null,\"title\":1\x7d\x7d\x7d\x7d"

/-- The place of a keyword of the schema. -/
def petKeyword (name : String) : Place := [.key "components", .key "schemas", .key "Pet", .key name]

theorem draft_nullDefault : Draft.read nullDefault =
    .record [("components", .record [("schemas", .record [("Pet",
      .record [("default", .null), ("x-pet", .null), ("title", .num (.int 1))] .closed)] .closed)]
        .closed)] .closed := rfl

/-- The document of that schema. -/
def nullDefaultDocument : Document :=
  { components := some { schemas := [("Pet",
      { own := { title := some "1", extensions := [("x-pet", .null)] } })] } }

theorem read_nullDefault : read nullDefault = .ok nullDefaultDocument := by
  rw [read, draft_nullDefault]
  rfl

/-- No object of the text has a key twice, so nothing but the null is lost. -/
theorem keysApart_nullDefault : (Draft.read nullDefault).KeysApart := by
  have leaf : ∀ d : Draft, (∀ fs e, d ≠ .record fs e) → (∀ s, d.part? s = none) → d.KeysApart :=
    fun d hd hs => Draft.keysApart_of_parts (fun fs e he => absurd he (hd fs e))
      fun s x hx => absurd (hx ▸ hs s) nofun
  rw [draft_nullDefault]
  iterate 3 refine Draft.keysApart_record _ (by decide) (List.forall_mem_singleton.mpr ?_)
  refine Draft.keysApart_record _ (by decide) ?_
  simp only [List.forall_mem_cons]
  exact ⟨leaf _ nofun fun _ => rfl, leaf _ nofun fun _ => rfl, leaf _ nofun fun _ => rfl,
    List.forall_mem_nil _⟩

/-- The null under the keyword that is not modelled is kept. -/
theorem keeps_nullDefault :
    read nullDefault = .ok nullDefaultDocument ∧ (Draft.read nullDefault).KeysApart ∧
    (Role.object .document).at? (petKeyword "x-pet") = some .free ∧
    (Draft.read nullDefault).at? (petKeyword "x-pet") = some .null ∧
    Role.free.Keeps .null (nullDefaultDocument.toJson.at? (petKeyword "x-pet")) :=
  ⟨read_nullDefault, keysApart_nullDefault, by decide, by rw [draft_nullDefault]; rfl,
    (keeps_iff read_nullDefault keysApart_nullDefault (by decide)
      (by rw [draft_nullDefault]; rfl)).mpr nofun⟩

/-- The null that is the default is not. -/
theorem not_keeps_nullDefault :
    read nullDefault = .ok nullDefaultDocument ∧ (Draft.read nullDefault).KeysApart ∧
    (Role.object .document).at? (petKeyword "default") = some .value ∧
    (Draft.read nullDefault).at? (petKeyword "default") = some .null ∧
    nullDefaultDocument.toJson.at? (petKeyword "default") = none :=
  ⟨read_nullDefault, keysApart_nullDefault, by decide, by rw [draft_nullDefault]; rfl, by rfl⟩

end Document

end ApiAssembly
