import ApiAssembly.Proofs.Document.RoundTrip
import ApiAssembly.Proofs.Reading.Texts

/-!
# Proofs — Document — the texts of documents that were read

**The texts of a document that was read stand in what it was read from, or have no token**
(`Document.keepsTexts`), kind by kind from the inside out.
-/

namespace ApiAssembly

/-- A requirement is a map of lists of texts. -/
theorem SecurityRequirement.keepsTexts (d : Draft) : d.KeepsTexts ofDraft toJson :=
  .mapOf fun _ _ => .listOf fun x _ => .text x

namespace Schema

/-- The cells of a schema keep the texts when the schemas right below it do. -/
theorem keepsTexts_cells {d : Draft} (h : d.KeepsTexts ofDraft toJson)
    (hchildren : ∀ x ∈ d.children, x.KeepsTexts ofDraft toJson) :
    ∀ c ∈ cells, c.KeepsTexts d := by
  simp only [cells, List.forall_mem_cons]
  exact ⟨.text d, .optional (SchemaType.keepsTexts d), .scalarText d, .scalarText d,
    .optional (.free d), .map hchildren, .list fun x _ => .text x, .list hchildren, .optional h,
    List.forall_mem_nil _⟩

/-- The texts of a schema that was read stand in its draft, by induction on the draft. -/
theorem keepsTexts (d : Draft) : d.KeepsTexts ofDraft toJson := by
  have below : ∀ x : Draft, sizeOf x < sizeOf d → x.KeepsTexts ofDraft toJson :=
    fun x _ => keepsTexts x
  -- As for `roundTrips`, a cell looks at two levels below the draft.
  refine shape_describes.keepsTexts Rest.keepsTexts_kept (by decide) fun x hx => ?_
  have hlt := Draft.sizeOf_lt_of_mem_children hx
  exact keepsTexts_cells (below x hlt) fun y hy =>
    below y (Nat.lt_trans (Draft.sizeOf_lt_of_mem_children hy) hlt)
termination_by sizeOf d

end Schema

theorem Info.keepsTexts (d : Draft) : d.KeepsTexts ofDraft toJson := by
  refine shape_describes.keepsTexts Rest.keepsTexts_kept (by decide) fun x _ => ?_
  simp only [shape, List.forall_mem_cons]
  exact ⟨.always (.scalarText x), .always (.scalarText x), .scalarText x, List.forall_mem_nil _⟩

theorem Tag.keepsTexts (d : Draft) : d.KeepsTexts ofDraft toJson := by
  refine shape_describes.keepsTexts Rest.keepsTexts_kept (by decide) fun x _ => ?_
  simp only [shape, List.forall_mem_cons]
  exact ⟨.always (.scalarText x), .scalarText x, List.forall_mem_nil _⟩

theorem Server.keepsTexts (d : Draft) : d.KeepsTexts ofDraft toJson := by
  refine shape_describes.keepsTexts Rest.keepsTexts_kept (by decide) fun x _ => ?_
  simp only [shape, List.forall_mem_cons]
  exact ⟨.always (.text x), .scalarText x, List.forall_mem_nil _⟩

/-- A parameter has a schema besides its texts and flags. -/
theorem Parameter.keepsTexts (d : Draft) : d.KeepsTexts ofDraft toJson := by
  refine shape_describes.keepsTexts Rest.keepsTexts_kept (by decide) fun x _ => ?_
  simp only [shape, List.forall_mem_cons]
  exact ⟨.text x, .scalarText x, .text x, .scalarText x, .flag x,
    .optional (Schema.keepsTexts x), List.forall_mem_nil _⟩

/-- A media type has nothing but a schema. -/
theorem MediaType.keepsTexts (d : Draft) : d.KeepsTexts ofDraft toJson := by
  refine shape_describes.keepsTexts Rest.keepsTexts_kept (by decide) fun x _ => ?_
  simp only [shape, List.forall_mem_cons]
  exact ⟨.optional (Schema.keepsTexts x), List.forall_mem_nil _⟩

/-- A request body has a map of media types. -/
theorem RequestBody.keepsTexts (d : Draft) : d.KeepsTexts ofDraft toJson := by
  refine shape_describes.keepsTexts Rest.keepsTexts_kept (by decide) fun x _ => ?_
  simp only [shape, List.forall_mem_cons]
  exact ⟨.text x, .scalarText x, .map fun y _ => MediaType.keepsTexts y, .flag x,
    List.forall_mem_nil _⟩

/-- A response has a map of media types. -/
theorem Response.keepsTexts (d : Draft) : d.KeepsTexts ofDraft toJson := by
  refine shape_describes.keepsTexts Rest.keepsTexts_kept (by decide) fun x _ => ?_
  simp only [shape, List.forall_mem_cons]
  exact ⟨.text x, .scalarText x, .map fun y _ => MediaType.keepsTexts y, List.forall_mem_nil _⟩

/-- An operation is read from its parameters, its body, its responses and its requirements. -/
theorem Operation.keepsTexts (d : Draft) : d.KeepsTexts ofDraft toJson := by
  refine shape_describes.keepsTexts Rest.keepsTexts_kept (by decide) fun x _ => ?_
  simp only [shape, List.forall_mem_cons]
  exact ⟨.list fun y _ => .text y, .scalarText x, .scalarText x, .scalarText x,
    .list fun y _ => Parameter.keepsTexts y, .optional (RequestBody.keepsTexts x),
    .map fun y _ => Response.keepsTexts y, .flag x,
    .optional (.listOf fun y _ => SecurityRequirement.keepsTexts y), List.forall_mem_nil _⟩

/-- A path item is read from its operations and its parameters. -/
theorem PathItem.keepsTexts (d : Draft) : d.KeepsTexts ofDraft toJson := by
  refine shape_describes.keepsTexts Rest.keepsTexts_kept (by decide) fun x _ => ?_
  simp only [shape, cells, List.forall_mem_append, List.forall_mem_map, List.forall_mem_cons]
  exact ⟨fun m _ => .optional (Operation.keepsTexts x), .list fun y _ => Parameter.keepsTexts y,
    List.forall_mem_nil _⟩

/-- The components are nine maps. -/
theorem Components.keepsTexts (d : Draft) : d.KeepsTexts ofDraft toJson := by
  refine shape_describes.keepsTexts Rest.keepsTexts_kept (by decide) fun x _ => ?_
  have free : ∀ {name : String}, (Cell.map name Draft.free id).KeepsTexts x :=
    .map fun y _ => .free y
  simp only [shape, List.forall_mem_cons]
  exact ⟨.map fun y _ => Schema.keepsTexts y, .map fun y _ => Response.keepsTexts y,
    .map fun y _ => Parameter.keepsTexts y, free, .map fun y _ => RequestBody.keepsTexts y,
    free, free, free, free, List.forall_mem_nil _⟩

namespace Document

/-- **The texts of a document that was read** stand in its draft, or have no token. -/
theorem keepsTexts (d : Draft) : d.KeepsTexts ofDraft toJson := by
  refine shape_describes.keepsTexts Rest.keepsTexts_kept (by decide) fun x _ => ?_
  simp only [shape, List.forall_mem_cons]
  exact ⟨.scalarText x, .optional (Info.keepsTexts x), .optional (.free x),
    .list fun y _ => Server.keepsTexts y, .list fun y _ => SecurityRequirement.keepsTexts y,
    .list fun y _ => Tag.keepsTexts y, .always (.mapOf fun y _ => PathItem.keepsTexts y),
    .optional (Components.keepsTexts x), List.forall_mem_nil _⟩

/-- **A document that is read of a value has no token but those of the value.** -/
theorem mem_texts_of_ofJson {j : Json} {d : Document} (h : ofJson j = .ok d) {t : String}
    (ht : t ∈ d.toJson.texts) : t ∈ j.texts ∨ Placeholder.opensToken t.toList = false := by
  have hholds : j.draft.Holds t := keepsTexts j.draft d h t ht
  rwa [Draft.Holds, Draft.texts_draft] at hholds

end Document

end ApiAssembly
