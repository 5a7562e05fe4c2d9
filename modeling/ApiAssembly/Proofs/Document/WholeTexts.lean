import ApiAssembly.Config.Environment
import ApiAssembly.Proofs.Document.Mismatches
import ApiAssembly.Proofs.Json.Language

/-!
# Proofs — Document — what comes after a document

A document, or a list of endpoints, is read from the first value of a text, and nothing is asked of
what comes after it (`ReadsFirst`): the text that is read is a JSON text exactly when only white
space comes after that value, and the same is read whatever comes there.  A configuration file is
read as a whole (`readsFirst_of_read`).
-/

namespace ApiAssembly

open Grammar

/-- A text is read by its first value.  That value is a JSON text, the whole text is one exactly
when nothing but white space comes after the value, and with anything else after it the same is
read. -/
def ReadsFirst {ε α : Type} (read : String → Except ε α) (text : String) (a : α) : Prop :=
  ∃ value rest, text.toList = value ++ rest ∧ IsJsonText value ∧
    (IsJsonText text.toList ↔ Spaces rest) ∧
    ∀ rest', read (String.ofList (value ++ rest')) = .ok a

/-- Where the draft decides what is read, and is a list or a record. -/
theorem readsFirst_of_draft {ε α : Type} {read : String → Except ε α} {text : String} {a : α}
    (hread : ∀ text', Draft.read text' = Draft.read text → read text' = .ok a)
    (h : (Draft.read text).wellWritten)
    (hbrackets : (∃ ds, Draft.read text = .list ds) ∨ ∃ fs e, Draft.read text = .record fs e) :
    ReadsFirst read text a := by
  obtain ⟨value, rest, htext, hone, hwhole, hsame⟩ := Draft.exists_first_value h hbrackets
  exact ⟨value, rest, htext, hone, hwhole, fun rest' => hread _ (hsame rest')⟩

theorem Document.read_of_ofText {origin text : String} {doc : Document} :
    ofText .json origin text = .ok doc ↔ ofDraft (Draft.read text) = .ok doc := by
  rw [ofText, Document.read]
  cases ofDraft (Draft.read text) with
  | ok doc' => simp [Except.mapError]
  | error f => simp [Except.mapError]

/-- What is read as a configuration file is a JSON text. -/
theorem isJsonText_of_read? {text : String} {j : Json} (h : Json.read? text = some j) :
    IsJsonText text.toList := by
  rw [Json.read?] at h
  split at h
  case h_1 d hscan =>
    rw [Draft.isJsonText_iff, Draft.read, hscan]
    exact ⟨Draft.wellWritten_of_json? h, rfl⟩
  case h_2 => cases h

/-- **Documents and lists of endpoints are read by the first value of a text**, so that a text with
more behind it is read as well; a configuration file is read only when it is one JSON text. -/
theorem readsFirst_of_read (text : String) :
    (∀ {origin : String} {doc : Document}, Document.ofText .json origin text = .ok doc →
      ReadsFirst (Document.ofText .json origin) text doc) ∧
    (∀ {es : List Endpoint}, Endpoint.readList text = .ok es →
      ReadsFirst Endpoint.readList text es) ∧
    (∀ {files : FileTree} {path : String} {tree : Json}, files.readText? path = some text →
      Environment.readTree? files path .json = some tree → IsJsonText text.toList) := by
  refine ⟨?_, ?_, ?_⟩
  · intro origin doc h
    have hdoc := Document.read_of_ofText.mp h
    obtain ⟨⟨fs, e⟩, hfs, -⟩ := Reading.exists_of_bind_eq_ok hdoc
    refine readsFirst_of_draft (fun text' hsame => ?_) ((Document.inOrder _).wellWritten doc hdoc)
      (.inr ⟨fs, e, Draft.fields_eq_ok hfs⟩)
    rw [Document.read_of_ofText, hsame]
    exact hdoc
  · intro es h
    obtain ⟨ds, hds, -⟩ := Reading.exists_of_bind_eq_ok h
    refine readsFirst_of_draft (fun text' hsame => ?_)
      ((Draft.inOrder_listOf fun x _ => Endpoint.inOrder x).wellWritten es h)
      (.inl ⟨ds, Draft.items_eq_ok hds⟩)
    rw [Endpoint.readList, hsame]
    exact h
  · intro files path tree htext h
    rw [Environment.readTree?, htext] at h
    exact isJsonText_of_read? h

/-- A document with a word behind it. -/
def wordBehind : String := "\x7b\x7dgarbage"

/-- A list of endpoints with another one behind it. -/
def twoLists : String := "[] []"

theorem ofText_wordBehind : Document.ofText .json "d" wordBehind = .ok {} := by
  have hread : Draft.read wordBehind = .record [] .closed := rfl
  rw [Document.read_of_ofText, hread]
  rfl

theorem readList_twoLists : Endpoint.readList twoLists = .ok [] := by
  have hread : Draft.read twoLists = .list [] := rfl
  rw [Endpoint.readList, hread]
  rfl

/-- A file with the same document and a line feed behind it. -/
def oneDocument : FileTree where
  entries := [(["application.json"], .file (.text "\x7b\x7d\n"))]

theorem readsFirst_wordBehind :
    (Document.ofText .json "d" wordBehind = .ok {} ∧
      ReadsFirst (Document.ofText .json "d") wordBehind {}) ∧
    (Endpoint.readList twoLists = .ok [] ∧ ReadsFirst Endpoint.readList twoLists []) ∧
    (oneDocument.readText? "application.json" = some "\x7b\x7d\n" ∧
      Environment.readTree? oneDocument "application.json" .json = some (.obj []) ∧
      IsJsonText "\x7b\x7d\n".toList) := by
  have htext : oneDocument.readText? "application.json" = some "\x7b\x7d\n" := rfl
  have htree : Environment.readTree? oneDocument "application.json" .json = some (.obj []) := rfl
  exact ⟨⟨ofText_wordBehind, (readsFirst_of_read wordBehind).1 ofText_wordBehind⟩,
    ⟨readList_twoLists, (readsFirst_of_read twoLists).2.1 readList_twoLists⟩,
    htext, htree, (readsFirst_of_read _).2.2 htext htree⟩

/-- **A text with more behind its first value is accepted**, though it is no JSON text. -/
theorem not_whole_wordBehind :
    (Document.ofText .json "d" wordBehind = .ok {} ∧ ¬ IsJsonText wordBehind.toList) ∧
    (Endpoint.readList twoLists = .ok [] ∧ ¬ IsJsonText twoLists.toList) :=
  ⟨⟨ofText_wordBehind, by decide +kernel⟩, readList_twoLists, by decide +kernel⟩

end ApiAssembly
