import ApiAssembly.Document.Source
import ApiAssembly.Output.Format
import ApiAssembly.Proofs.Document.Endpoints
import ApiAssembly.Proofs.Json.Nesting
import ApiAssembly.Proofs.Json.Reading

/-!
# Proofs — Document — what is written is read

A document is written as JSON, compact or indented, or as YAML (`Form`), and endpoints as a JSON
list.  `form.Returns j` says that the reader of a form returns the tree that its writer was given.

**Whatever was read from a text, in JSON or in YAML, is read again from what is written of it**, as
long as the tree is returned (`Form.reads_written`).  Reading is not the inverse of writing on all
documents: the order of keys and the texts that stand for numbers are settled by the first reading.

The JSON reader returns every tree whose numbers are read back and that is nested no deeper than it
goes (`Form.returns_of_numbersReadBack`); what comes from JSON is nested no deeper.  Of YAML it is
asked that the tree is returned.
-/

namespace ApiAssembly

/-- How a value is written. -/
inductive Form where
  | compact | indented | yaml
  deriving DecidableEq

namespace Form

/-- The format that the texts of the form are read in. -/
def format : Form → SourceFormat
  | .compact | .indented => .json
  | .yaml                => .yaml

def print : Form → Json → String
  | .compact  => Json.compact
  | .indented => Json.indented
  | .yaml     => Yaml.print

/-- The reader of the form returns the tree that was written. -/
def Returns : Form → Json → Prop
  | .yaml, j => Yaml.read? (Yaml.print j) = some j
  | form,  j => Draft.read (form.print j) = j.draft

/-- A text in JSON from which a tree is returned has the draft of the tree. -/
theorem Returns.read_print {form : Form} (hform : form.format = .json) {j : Json}
    (h : form.Returns j) : Draft.read (form.print j) = j.draft := by
  cases form with
  | yaml => cases hform
  | _ => exact h

theorem Returns.read?_print {form : Form} (hform : form.format = .yaml) {j : Json}
    (h : form.Returns j) : Yaml.read? (form.print j) = some j := by
  cases form with
  | yaml => exact h
  | _ => cases hform

/-- JSON returns every tree whose numbers are read back and that is nested no deeper than it
goes. -/
theorem returns_of_numbersReadBack {form : Form} (hform : form.format = .json) {j : Json}
    (h : j.NumbersReadBack) (hdepth : j.depth ≤ Draft.nestingLimit) : form.Returns j := by
  cases form with
  | compact => exact Json.read_compact h hdepth
  | indented => exact Json.read_indented h hdepth
  | yaml => cases hform

end Form

theorem Reading.mapError_eq_ok_iff {ε ε' α : Type} {x : Except ε α} {f : ε → ε'} {a : α} :
    x.mapError f = .ok a ↔ x = .ok a := by
  cases x <;> simp [Except.mapError]

/-- A document comes from a draft, in both formats. -/
theorem Document.exists_draft_of_ofText {format : SourceFormat} {origin text : String}
    {d : Document} (h : Document.ofText format origin text = .ok d) :
    ∃ draft, Document.ofDraft draft = .ok d := by
  cases format with
  | json => exact ⟨_, Reading.mapError_eq_ok_iff.mp h⟩
  | yaml =>
    simp only [Document.ofText] at h
    split at h
    · cases h
    · exact ⟨_, Reading.mapError_eq_ok_iff.mp h⟩

/-- A document that is read from its own tree is read from the text that returns the tree. -/
theorem Form.ofText_print {form : Form} {d : Document} (h : form.Returns d.toJson)
    (hd : Document.ofDraft d.toJson.draft = .ok d) (origin : String) :
    Document.ofText form.format origin (form.print d.toJson) = .ok d := by
  cases hform : form.format with
  | json =>
    rw [Document.ofText, Document.read, h.read_print hform]
    exact Reading.mapError_eq_ok_iff.mpr hd
  | yaml =>
    simp only [Document.ofText, h.read?_print hform]
    exact Reading.mapError_eq_ok_iff.mpr hd

/-- The JSON of a list of endpoints. -/
def Endpoint.listJson (es : List Endpoint) : Json := .arr (es.map toJson)

/-- Endpoints that are read from their own tree are read from the text that returns the tree. -/
theorem Form.readList_print {form : Form} (hform : form.format = .json) {es : List Endpoint}
    (h : form.Returns (Endpoint.listJson es))
    (hes : (Endpoint.listJson es).draft.listOf Endpoint.ofDraft = .ok es) :
    Endpoint.readList (form.print (Endpoint.listJson es)) = .ok es := by
  rw [Endpoint.readList, h.read_print hform, hes]

/-- A list of endpoints that was read is read again, and nested no deeper than a reader goes. -/
theorem Endpoint.rereads_list {text : String} {es : List Endpoint} (h : readList text = .ok es) :
    Draft.Rereads (Draft.listOf ofDraft) listJson Draft.nestingLimit es := by
  refine Draft.rereads_listOf (n := Draft.nestingLimit - 1) (fun x hx e he => ?_) h
  have hdepth := Draft.depth_le_of_mem_children (Draft.depth_read_le text) hx
  exact (Endpoint.rereads he).mono (Nat.max_le.mpr ⟨hdepth, by decide⟩)

/-- **What was read is read again from what is written of it.**  A document that comes from a text,
in JSON or YAML, is the document of each of its own texts whose reader returns the tree, and
endpoints that come from a JSON list are the endpoints of their own JSON texts.  The JSON reader
returns the tree of what comes from JSON as soon as its numbers are read back. -/
theorem Form.reads_written (form : Form) :
    (∀ format origin text d, Document.ofText format origin text = .ok d →
      form.Returns d.toJson → ∀ origin',
      Document.ofText form.format origin' (form.print d.toJson) = .ok d) ∧
    (form.format = .json →
      (∀ text es, Endpoint.readList text = .ok es → form.Returns (Endpoint.listJson es) →
        Endpoint.readList (form.print (Endpoint.listJson es)) = .ok es) ∧
      (∀ text d, Document.read text = .ok d → d.toJson.NumbersReadBack →
        form.Returns d.toJson) ∧
      (∀ text es, Endpoint.readList text = .ok es → (Endpoint.listJson es).NumbersReadBack →
        form.Returns (Endpoint.listJson es))) := by
  refine ⟨?documents, fun hform => ⟨?endpoints, ?documentTree, ?endpointTree⟩⟩
  case documents =>
    intro format origin text d hd hreturns origin'
    obtain ⟨draft, hdraft⟩ := Document.exists_draft_of_ofText hd
    exact Form.ofText_print hreturns (Document.rereads hdraft).again origin'
  case endpoints =>
    intro text es hes hreturns
    exact Form.readList_print hform hreturns (Endpoint.rereads_list hes).again
  case documentTree =>
    intro text d hd hnumbers
    have hdepth : d.toJson.depth ≤ Draft.nestingLimit :=
      Nat.le_trans (Document.rereads hd).readFrom.depth_le
        (Nat.max_le.mpr ⟨Draft.depth_read_le text, by decide⟩)
    exact Form.returns_of_numbersReadBack hform hnumbers hdepth
  case endpointTree =>
    intro text es hes hnumbers
    exact Form.returns_of_numbersReadBack hform hnumbers
      (Endpoint.rereads_list hes).readFrom.depth_le

/-! ### A document whose texts differ from what was read -/

/-- A title behind the version, and texts that are numbers. -/
def lenientText : String :=
  "\x7b\"info\":\x7b\"version\":2,\"title\":\"Pets\"\x7d,\"openapi\":3,\"x-n\":[1]\x7d"

def lenientDocument : Document where
  openapi := some "3"
  info := some { title := "Pets", version := "2" }
  extensions := [("x-n", .arr [.num (.int 1)])]

/-- An endpoint as the list of its values, and one as an object. -/
def lenientList : String :=
  "[[\"/pets\",\x7b\"GET\":null\x7d,\x7b\x7d]," ++
    "\x7b\"method\":\"POST\",\"operation\":\x7b\x7d,\"url\":\"/pets\"\x7d]"

def lenientEndpoints : List Endpoint := [{ url := "/pets" }, { url := "/pets", method := .post }]

theorem read_lenientText : Document.read lenientText = .ok lenientDocument := by
  have hread : Draft.read lenientText = .record
      [("info", .record [("version", .num (.int 2)), ("title", .str "Pets")] .closed),
        ("openapi", .num (.int 3)), ("x-n", .list [.num (.int 1)])] .closed := rfl
  rw [Document.read, hread]
  rfl

theorem ofText_lenientText (origin : String) :
    Document.ofText .json origin lenientText = .ok lenientDocument := by
  rw [Document.ofText, read_lenientText]
  rfl

theorem readList_lenientList : Endpoint.readList lenientList = .ok lenientEndpoints := by
  have hread : Draft.read lenientList = .list
      [.list [.str "/pets", .record [("GET", .null)] .closed, .record [] .closed],
        .record [("method", .str "POST"), ("operation", .record [] .closed), ("url", .str "/pets")]
          .closed] := rfl
  rw [Endpoint.readList, hread]
  rfl

/-- A number in a lenient field is written as a text, from which the same document is read. -/
theorem Form.reads_written_lenient :
    Document.ofText .json "pets.json" (Json.compact lenientDocument.toJson) =
        .ok lenientDocument ∧
      Endpoint.readList (Json.indented (Endpoint.listJson lenientEndpoints)) =
        .ok lenientEndpoints := by
  have hnumbers : (lenientDocument.toJson).NumbersReadBack := by
    have h : lenientDocument.toJson.numbers = [.int 1] := rfl
    rw [Json.NumbersReadBack, h]
    decide
  have hnone : (Endpoint.listJson lenientEndpoints).NumbersReadBack := fun n hn =>
    absurd (show n ∈ ([] : List Number) from hn) List.not_mem_nil
  obtain ⟨hdocument, hjson⟩ := Form.compact.reads_written
  obtain ⟨-, htree, -⟩ := hjson rfl
  obtain ⟨-, hjson'⟩ := Form.indented.reads_written
  obtain ⟨hlist, -, htree'⟩ := hjson' rfl
  exact ⟨hdocument .json "" lenientText lenientDocument (ofText_lenientText "")
      (htree lenientText lenientDocument read_lenientText hnumbers) "pets.json",
    hlist lenientList lenientEndpoints readList_lenientList
      (htree' lenientList lenientEndpoints readList_lenientList hnone)⟩

end ApiAssembly
