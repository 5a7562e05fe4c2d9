import ApiAssembly.Document.Source
import ApiAssembly.Proofs.Document.Endpoints
import ApiAssembly.Proofs.Reading.InOrder

/-!
# Proofs — Document — the first mismatch

Documents and endpoints are read in order (`Document.inOrder`, `Endpoint.inOrder`), kind by kind
from the inside out.  So **the place of a mismatch leads to a node of the input, and what comes
after this node has no influence on the mismatch** (`mismatch_pinned`): any other input that is the
same through the node has the same mismatch in the same place, whatever follows, and even if nothing
follows because the text breaks off.
-/

namespace ApiAssembly

open Draft

/-- A type is read whole before it is judged, so a mismatch is at the type itself. -/
theorem SchemaType.inOrder (d : Draft) : d.InOrder ofDraft := by
  refine inOrder_free_bind (fun j place cause h => ?_) d
  split at h
  · cases h
  · split at h <;> cases h
    rfl
  · cases h
    rfl

theorem SecurityRequirement.inOrder (d : Draft) : d.InOrder ofDraft :=
  inOrder_mapOf fun _ _ => inOrder_listOf fun x _ => inOrder_text x

namespace Schema

/-- The cells of a schema are read in order, when the schemas below it are. -/
theorem inOrder_cells {d : Draft} (h : d.InOrder ofDraft)
    (hchildren : ∀ x ∈ d.children, x.InOrder ofDraft) : ∀ c ∈ cells, d.InOrder c.read := by
  simp only [cells, List.forall_mem_cons]
  exact ⟨(inOrder_text d).optional, (SchemaType.inOrder d).optional,
    (inOrder_scalarText d).optional, (inOrder_scalarText d).optional, (inOrder_free d).optional,
    inOrder_mapOf hchildren, inOrder_listOf fun x _ => inOrder_text x, inOrder_listOf hchildren,
    h.optional, List.forall_mem_nil _⟩

/-- A schema is read in order, by induction on the draft. -/
theorem inOrder (d : Draft) : d.InOrder ofDraft := by
  have below : ∀ x : Draft, sizeOf x < sizeOf d → x.InOrder ofDraft := fun x _ => inOrder x
  -- As for `roundTrips`, a cell looks at two levels below the draft.
  refine shape_describes.inOrder Rest.passesOver_kept fun x hx => ?_
  have hlt := sizeOf_lt_of_mem_children hx
  exact inOrder_cells (below x hlt) fun y hy =>
    below y (Nat.lt_trans (sizeOf_lt_of_mem_children hy) hlt)
termination_by sizeOf d

end Schema

theorem Info.inOrder (d : Draft) : d.InOrder ofDraft := by
  refine shape_describes.inOrder Rest.passesOver_kept fun x _ => ?_
  simp only [shape, List.forall_mem_cons]
  exact ⟨inOrder_scalarText x, inOrder_scalarText x, (inOrder_scalarText x).optional,
    List.forall_mem_nil _⟩

theorem Tag.inOrder (d : Draft) : d.InOrder ofDraft := by
  refine shape_describes.inOrder Rest.passesOver_kept fun x _ => ?_
  simp only [shape, List.forall_mem_cons]
  exact ⟨inOrder_scalarText x, (inOrder_scalarText x).optional, List.forall_mem_nil _⟩

theorem Server.inOrder (d : Draft) : d.InOrder ofDraft := by
  refine shape_describes.inOrder Rest.passesOver_kept fun x _ => ?_
  simp only [shape, List.forall_mem_cons]
  exact ⟨inOrder_text x, (inOrder_scalarText x).optional, List.forall_mem_nil _⟩

/-- A parameter is read in order since its schema is. -/
theorem Parameter.inOrder (d : Draft) : d.InOrder ofDraft := by
  refine shape_describes.inOrder Rest.passesOver_kept fun x _ => ?_
  simp only [shape, List.forall_mem_cons]
  exact ⟨(inOrder_text x).optional, (inOrder_scalarText x).optional, (inOrder_text x).optional,
    (inOrder_scalarText x).optional, (inOrder_boolean x).optional, (Schema.inOrder x).optional,
    List.forall_mem_nil _⟩

theorem MediaType.inOrder (d : Draft) : d.InOrder ofDraft := by
  refine shape_describes.inOrder Rest.passesOver_kept fun x _ => ?_
  simp only [shape, List.forall_mem_cons]
  exact ⟨(Schema.inOrder x).optional, List.forall_mem_nil _⟩

theorem RequestBody.inOrder (d : Draft) : d.InOrder ofDraft := by
  refine shape_describes.inOrder Rest.passesOver_kept fun x _ => ?_
  simp only [shape, List.forall_mem_cons]
  exact ⟨(inOrder_text x).optional, (inOrder_scalarText x).optional,
    inOrder_mapOf fun y _ => MediaType.inOrder y, (inOrder_boolean x).optional,
    List.forall_mem_nil _⟩

theorem Response.inOrder (d : Draft) : d.InOrder ofDraft := by
  refine shape_describes.inOrder Rest.passesOver_kept fun x _ => ?_
  simp only [shape, List.forall_mem_cons]
  exact ⟨(inOrder_text x).optional, (inOrder_scalarText x).optional,
    inOrder_mapOf fun y _ => MediaType.inOrder y, List.forall_mem_nil _⟩

/-- An operation is read in order since its parameters, body and responses are. -/
theorem Operation.inOrder (d : Draft) : d.InOrder ofDraft := by
  refine shape_describes.inOrder Rest.passesOver_kept fun x _ => ?_
  simp only [shape, List.forall_mem_cons]
  exact ⟨inOrder_listOf fun y _ => inOrder_text y, (inOrder_scalarText x).optional,
    (inOrder_scalarText x).optional, (inOrder_scalarText x).optional,
    inOrder_listOf fun y _ => Parameter.inOrder y, (RequestBody.inOrder x).optional,
    inOrder_mapOf fun y _ => Response.inOrder y, (inOrder_boolean x).optional,
    (inOrder_listOf fun y _ => SecurityRequirement.inOrder y).optional, List.forall_mem_nil _⟩

/-- A path item is read in order since its operations are. -/
theorem PathItem.inOrder (d : Draft) : d.InOrder ofDraft := by
  refine shape_describes.inOrder Rest.passesOver_kept fun x _ => ?_
  simp only [shape, cells, List.forall_mem_append, List.forall_mem_map, List.forall_mem_cons]
  exact ⟨fun m _ => (Operation.inOrder x).optional,
    inOrder_listOf fun y _ => Parameter.inOrder y, List.forall_mem_nil _⟩

/-- Components are maps, of schemas or of free values. -/
theorem Components.inOrder (d : Draft) : d.InOrder ofDraft := by
  refine shape_describes.inOrder Rest.passesOver_kept fun x _ => ?_
  have free : x.InOrder (mapOf Draft.free) := inOrder_mapOf fun y _ => inOrder_free y
  simp only [shape, List.forall_mem_cons]
  exact ⟨inOrder_mapOf fun y _ => Schema.inOrder y, inOrder_mapOf fun y _ => Response.inOrder y,
    inOrder_mapOf fun y _ => Parameter.inOrder y, free,
    inOrder_mapOf fun y _ => RequestBody.inOrder y, free, free, free, free, List.forall_mem_nil _⟩

/-- **Documents are read in order.** -/
theorem Document.inOrder (d : Draft) : d.InOrder ofDraft := by
  refine shape_describes.inOrder Rest.passesOver_kept fun x _ => ?_
  simp only [shape, List.forall_mem_cons]
  exact ⟨(inOrder_scalarText x).optional, (Info.inOrder x).optional, (inOrder_free x).optional,
    inOrder_listOf fun y _ => Server.inOrder y,
    inOrder_listOf fun y _ => SecurityRequirement.inOrder y,
    inOrder_listOf fun y _ => Tag.inOrder y, inOrder_mapOf fun y _ => PathItem.inOrder y,
    (Components.inOrder x).optional, List.forall_mem_nil _⟩

/-! ### Endpoints -/

theorem Draft.inOrder_textSet (d : Draft) : d.InOrder textSet := by
  have htexts : d.InOrder fun d => d.items .set >>= itemsFrom text 0 :=
    inOrder_itemsOf .set fun x _ => inOrder_text x
  refine (htexts.map TextSet.ofList).congr fun _ d' _ => ?_
  rw [textSet]
  cases d'.items .set <;> rfl

theorem Draft.inOrder_unit (d : Draft) : d.InOrder unit := by
  refine inOrder_of_root (fun _ h => ?_) fun place cause h => ?_
  · unfold unit at h
    split at h
    · rfl
    · exact absurd h (refuse_ne_ok _ _ _)
  · unfold unit at h
    split at h
    · cases h
    · exact refuse_place h

namespace Method

/-- An unknown name of a method is a mismatch of the whole. -/
theorem ofText_place {name : String} {place : Place} {cause : Mismatch}
    (h : ofText name = .error (.mismatch place cause)) : place = [] := by
  rw [ofText] at h
  split at h <;> cases h
  rfl

/-- How a record ends makes no difference for a mismatch in it. -/
theorem ofDraft_record_of_mismatch {fs : List (String × Draft)} {e : Ending} {place : Place}
    {cause : Mismatch} (h : ofDraft (.record fs e) = .error (.mismatch place cause)) (e' : Ending) :
    ofDraft (.record fs e') = .error (.mismatch place cause) := by
  cases fs with
  | nil => cases h
  | cons f rest =>
    obtain ⟨name, x⟩ := f
    show (ofText name >>= fun m => x.unit.under (.key name) >>= _) = _
    rcases Reading.of_bind_eq_error h with hname | ⟨m, hm, h⟩
    · rw [hname]
      rfl
    · rcases Reading.of_bind_eq_error h with hunit | ⟨u, -, hend⟩
      · rw [hm]
        show (x.unit.under (.key name) >>= _) = _
        rw [hunit]
        rfl
      · split at hend <;> cases hend

/-- The name may be the key of a null, which is the only part of a method. -/
theorem inOrder_record (name : String) (x : Draft) (rest : List (String × Draft)) (e : Ending) :
    (Draft.record ((name, x) :: rest) e).InOrder ofDraft where
  wellWritten m hm := by
    obtain ⟨m', -, hm⟩ := Reading.exists_of_bind_eq_ok hm
    obtain ⟨u, hu, hm⟩ := Reading.exists_of_bind_eq_ok hm
    have hx := (inOrder_unit x).wellWritten u (Reading.of_under_eq_ok hu)
    split at hm
    case isTrue hend =>
      obtain ⟨hrest, hclosed⟩ := Bool.and_eq_true_iff.mp hend
      obtain rfl := List.isEmpty_iff.mp hrest
      obtain rfl : e = .closed := by simpa [Ending.stops] using hclosed
      exact wellWritten_closed (List.forall_mem_singleton.mpr hx)
    case isFalse => cases hm
  pinned place cause herror := by
    rcases Reading.of_bind_eq_error herror with hname | ⟨m, hm, hrest⟩
    · obtain rfl := ofText_place hname
      exact pinned_root herror
    · rcases Reading.of_bind_eq_error hrest with hunit | ⟨-, -, hend⟩
      · obtain ⟨below, rfl, hx⟩ := Reading.under_eq_mismatch_iff.mp hunit
        have hfield : PinnedField (fun fs => ofDraft (.record fs e)) ((name, x) :: rest)
            (.key name :: below) cause := by
          refine .head ((inOrder_unit x).pinned below cause hx) fun x' after' hx' => ?_
          show (ofText name >>= fun m => x'.unit.under (.key name) >>= _) = _
          rw [hm, hx']
          rfl
        exact hfield.pinned fun fs' e' hfs' => ofDraft_record_of_mismatch hfs' e'
      · split at hend <;> cases hend

/-- A method is read in order, be it a text or a record. -/
theorem inOrder (d : Draft) : d.InOrder ofDraft := by
  match d with
  | .record ((name, x) :: rest) e => exact inOrder_record name x rest e
  | .str name =>
    exact inOrder_of_root (fun _ _ => rfl) fun place cause h => ofText_place h
  | .record [] e => exact inOrder_of_root nofun nofun
  | .null => exact inOrder_of_root nofun nofun
  | .bool b => exact inOrder_of_root nofun nofun
  | .num n => exact inOrder_of_root nofun nofun
  | .valueless => exact inOrder_of_root nofun nofun
  | .list ds => exact inOrder_of_root nofun nofun
  | .beyond inner => exact inOrder_of_root nofun nofun
  | .broken => exact inOrder_of_root nofun nofun

end Method

namespace Endpoint

/-- The cells of an endpoint are read in order. -/
theorem inOrder_cells (x : Draft) : ∀ c ∈ shape.cells, x.InOrder c.read := by
  simp only [shape, List.forall_mem_cons]
  exact ⟨inOrder_text x, Method.inOrder x, Operation.inOrder x, inOrder_textSet x,
    inOrder_textSet x, (inOrder_text x).optional, (inOrder_text x).optional, List.forall_mem_nil _⟩

theorem inOrder_table (x : Draft) : ∀ f ∈ table, ∀ e, x.InOrder fun d => f.read d e :=
  Row.inOrder_fields (v := shape.view) (inOrder_cells x)

/-- A record of an endpoint is read in order. -/
theorem inOrder_object (d : Draft) :
    d.InOrder (Draft.object .endpoint table required (fun _ => skip) {}) := by
  refine Draft.inOrder_object ?_ (fun x _ => inOrder_table x) .endpoint required {}
  rw [skip_eq]
  exact Row.passesOver_other Rest.passesOver_passed shape.cells shape.view

variable {fields : List (Field Endpoint)} {e : Endpoint} {i : Nat} {ds : List Draft}

/-- What a list of fields is read from is well written. -/
theorem wellWritten_of_ofItems (hfields : fields ⊆ table) {e' : Endpoint}
    (h : ofItems e i fields ds = .ok e') : ∀ x ∈ ds, x.wellWritten := by
  induction fields generalizing e i ds with
  | nil =>
    cases ds with
    | nil => exact List.forall_mem_nil _
    | cons d ds => cases h
  | cons f fields ih =>
    obtain ⟨hf, hfields⟩ := List.cons_subset.mp hfields
    cases ds with
    | nil => exact List.forall_mem_nil _
    | cons d ds =>
      obtain ⟨e'', hread, h⟩ := Reading.exists_of_bind_eq_ok h
      exact List.forall_mem_cons.mpr ⟨(inOrder_table d f hf e).wellWritten e''
        (Reading.of_under_eq_ok hread), ih hfields h⟩

/-- A mismatch below a list of fields is in one of its items. -/
theorem pinnedItem_ofItems (hfields : fields ⊆ table) {place : Place} {cause : Mismatch}
    (h : ofItems e i fields ds = .error (.mismatch place cause)) (hplace : place ≠ []) :
    PinnedItem (fun ds => ofItems e i fields ds) i ds place cause := by
  induction fields generalizing e i ds with
  | nil =>
    cases ds with
    | nil => cases h
    | cons d ds => cases h
  | cons f fields ih =>
    obtain ⟨hf, hfields⟩ := List.cons_subset.mp hfields
    cases ds with
    | nil =>
      rw [ofItems] at h
      split at h <;> cases h
      exact absurd rfl hplace
    | cons d ds =>
      rcases Reading.of_bind_eq_error h with herror | ⟨e', he', h⟩
      · obtain ⟨rest, rfl, hread⟩ := Reading.under_eq_mismatch_iff.mp herror
        refine .head ((inOrder_table d f hf e).pinned rest cause hread) fun x' after' hx' => ?_
        rw [ofItems, hx']
        rfl
      · refine (ih hfields h).cons fun ds' hds' => ?_
        rw [ofItems, he']
        exact hds'

/-- The list form goes by the same fields as the object. -/
theorem inOrder_list (ds : List Draft) : (Draft.list ds).InOrder ofDraft where
  wellWritten _ h := wellWrittenItems_iff.mpr (wellWritten_of_ofItems (List.Subset.refl _) h)
  pinned place cause h := by
    by_cases hplace : place = []
    · subst hplace
      exact pinned_root h
    · have hitems : ofItems {} 0 table ds = .error (.mismatch place cause) := h
      exact (pinnedItem_ofItems (List.Subset.refl _) hitems hplace).pinned fun ds' hds' => hds'

/-- Whatever is not a list is read like a record. -/
theorem ofDraft_eq_object {d : Draft} (hlist : ∀ ds, d ≠ .list ds)
    (hbeyond : ∀ ds, d ≠ .beyond (.list ds)) :
    ofDraft d = Draft.object .endpoint table required (fun _ => skip) {} d := by
  unfold ofDraft
  split
  · exact absurd rfl (hlist _)
  · exact absurd rfl (hbeyond _)
  · rfl

/-- **Endpoints are read in order**, in both forms. -/
theorem inOrder (d : Draft) : d.InOrder ofDraft := by
  by_cases hlist : ∃ ds, d = .list ds
  · obtain ⟨ds, rfl⟩ := hlist
    exact inOrder_list ds
  by_cases hbeyond : ∃ ds, d = .beyond (.list ds)
  · obtain ⟨ds, rfl⟩ := hbeyond
    exact inOrder_of_root (fun _ h => nomatch h) fun _ _ h => nomatch h
  · -- What is the same as an object up to a node of it is an object too.
    refine (inOrder_object d).congr fun positions d' h => ofDraft_eq_object ?_ ?_
    · rintro ds rfl
      cases h
      · exact hlist ⟨ds, rfl⟩
      · exact hlist ⟨_, rfl⟩
    · rintro ds rfl
      cases h
      exact hbeyond ⟨ds, rfl⟩

end Endpoint

/-! ### Texts -/

/-- The tree of a text, in the order of the text. -/
def SourceFormat.draft? (text : String) : SourceFormat → Option Draft
  | .json => some (Draft.read text)
  | .yaml => (Yaml.read? text).map Json.draft

theorem DocumentFault.ofFault_eq_mismatch_iff {origin : String} {f : Fault} {place : Place}
    {cause : Mismatch} :
    ofFault origin f = .mismatch origin place cause ↔ f = .mismatch place cause := by
  cases f <;> simp [ofFault]

/-- A text has the mismatch that its draft has. -/
theorem Document.ofText_eq_mismatch_iff {format : SourceFormat} {origin text : String}
    {place : Place} {cause : Mismatch} :
    ofText format origin text = .error (.mismatch origin place cause) ↔
      ∃ d, format.draft? text = some d ∧ ofDraft d = .error (.mismatch place cause) := by
  have hmap (r : Reading Document) :
      r.mapError (DocumentFault.ofFault origin) = .error (.mismatch origin place cause) ↔
        r = .error (.mismatch place cause) := by
    cases r with
    | ok doc => exact ⟨nofun, nofun⟩
    | error f => simp [Except.mapError, DocumentFault.ofFault_eq_mismatch_iff]
  cases format with
  | json => simp [ofText, hmap, Document.read, SourceFormat.draft?]
  | yaml =>
    rw [ofText, SourceFormat.draft?]
    cases Yaml.read? text with
    | none => simp
    | some j => simp [hmap, Document.ofJson]

/-- **A mismatch is where it is said to be, and nothing that comes after it has an influence on
it.** Its place leads to a node of the input, and every other input that has the same keys and
values in the order of the text up to this node has the same mismatch in the same place. -/
theorem mismatch_pinned :
    (∀ {format : SourceFormat} {origin text : String} {place : Place} {cause : Mismatch},
      Document.ofText format origin text = .error (.mismatch origin place cause) →
      ∃ d positions node, format.draft? text = some d ∧ LeadsTo positions place d node ∧
        ∀ (format' : SourceFormat) text' d', format'.draft? text' = some d' →
          SameThrough positions d d' →
            Document.ofText format' origin text' = .error (.mismatch origin place cause)) ∧
    (∀ {text : String} {place : Place} {cause : Mismatch},
      Endpoint.readList text = .error (.mismatch place cause) →
      ∃ positions node, LeadsTo positions place (Draft.read text) node ∧
        ∀ text', SameThrough positions (Draft.read text) (Draft.read text') →
          Endpoint.readList text' = .error (.mismatch place cause)) := by
  constructor
  · intro format origin text place cause h
    obtain ⟨d, hd, herror⟩ := Document.ofText_eq_mismatch_iff.mp h
    obtain ⟨positions, node, hleads, hsame⟩ := (Document.inOrder d).pinned place cause herror
    exact ⟨d, positions, node, hd, hleads, fun format' text' d' hd' hsame' =>
      Document.ofText_eq_mismatch_iff.mpr ⟨d', hd', hsame d' hsame'⟩⟩
  · intro text place cause h
    obtain ⟨positions, node, hleads, hsame⟩ :=
      (inOrder_listOf fun x _ => Endpoint.inOrder x).pinned place cause h
    exact ⟨positions, node, hleads, fun text' hsame' => hsame _ hsame'⟩

/-- A tag without a name, and then an info that is none. -/
def namelessTag : String :=
  "\x7b\"tags\":[\x7b\"name\":1\x7d,\x7b\"x\":2\x7d],\"info\":7\x7d"

/-- The same tags in a text that goes wrong behind them. -/
def namelessTagCut : String := "\x7b \"tags\" : [ \x7b\"name\":1\x7d, \x7b\"x\":2\x7d, ?"

def urlNumber : String := "[\x7b\"url\":7,\"method\":\"GET\"\x7d,7]"

/-- The same number in a text that breaks off. -/
def urlNumberCut : String := "[ \x7b \"url\" : 7"

/-- Texts that break off behind the node have the mismatch of the whole ones. -/
theorem mismatch_pinned_cut :
    (Document.ofText .json "d" namelessTag =
        .error (.mismatch "d" [.key "tags", .index 1] (.missingField "name")) ∧
      Document.ofText .json "d" namelessTagCut =
        .error (.mismatch "d" [.key "tags", .index 1] (.missingField "name"))) ∧
    (Endpoint.readList urlNumber =
        .error (.mismatch [.index 0, .key "url"] (.wrongType (.integer 7) .text)) ∧
      Endpoint.readList urlNumberCut =
        .error (.mismatch [.index 0, .key "url"] (.wrongType (.integer 7) .text))) := by
  constructor
  · have hread : Draft.read namelessTag = .record
        [("tags", .list [.record [("name", .num (.int 1))] .closed,
          .record [("x", .num (.int 2))] .closed]), ("info", .num (.int 7))] .closed := rfl
    have hcut : Draft.read namelessTagCut = .record
        [("tags", .list [.record [("name", .num (.int 1))] .closed,
          .record [("x", .num (.int 2))] .closed, .broken])] .cut := rfl
    have herror : Document.ofText .json "d" namelessTag =
        .error (.mismatch "d" [.key "tags", .index 1] (.missingField "name")) := by
      rw [Document.ofText, Document.read, hread]
      rfl
    obtain ⟨d, positions, node, hd, hleads, hsame⟩ := mismatch_pinned.1 herror
    obtain rfl := (Option.some.inj hd).symm.trans hread
    obtain ⟨_, rfl, htags⟩ := hleads.exists_of_first_key (by decide)
    obtain ⟨_, rfl, _, -, hitem⟩ := htags.exists_of_index
    obtain rfl := hitem.eq_nil
    exact ⟨herror, hsame .json namelessTagCut _ (congrArg some hcut)
      (.field [] _ _ _ _ _ (.item [_] _ _ (.here _)))⟩
  · have hread : Draft.read urlNumber = .list
        [.record [("url", .num (.int 7)), ("method", .str "GET")] .closed, .num (.int 7)] := rfl
    have hcut : Draft.read urlNumberCut = .list [.record [("url", .num (.int 7))] .cut] := rfl
    have herror : Endpoint.readList urlNumber =
        .error (.mismatch [.index 0, .key "url"] (.wrongType (.integer 7) .text)) := by
      rw [Endpoint.readList, hread]
      rfl
    obtain ⟨positions, node, hleads, hsame⟩ := mismatch_pinned.2 herror
    rw [hread] at hleads hsame
    obtain ⟨_, rfl, _, hx, hitem⟩ := hleads.exists_of_index
    obtain rfl := Option.some.inj hx
    obtain ⟨_, rfl, hurl⟩ := hitem.exists_of_first_key (by decide)
    obtain rfl := hurl.eq_nil
    refine ⟨herror, hsame urlNumberCut ?_⟩
    rw [hcut]
    exact .item [] _ _ (.field [] _ _ _ _ _ (.here _))

end ApiAssembly
