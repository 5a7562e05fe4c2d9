import ApiAssembly.Proofs.Document.KeysApart
import ApiAssembly.Proofs.Document.Written

/-!
# Proofs — Document — documents with their tokens replaced

A document is resolved as the value that it is written as: the texts of the value are expanded,
entries of an object whose keys become one are written one over the other, and the value is read.
What comes of a document that was read is the document with its texts expanded, each in its place,
exactly when no two keys of it become one (`Expander.resolveDocument_eq_ok_iff`).  The keys that are
apart are those of each map, and those of each object: what the key of an extension expands to may
be the key of a field of the object (`Expander.resolveDocument_of_description`).
-/

namespace ApiAssembly

namespace Expander

theorem keepsPlain_expand (e : Expander) : KeepsPlain e.expand :=
  fun _ => e.expand_of_not_opens

/-- Where the keys stay apart, a document is resolved as the value of the expanded document. -/
theorem resolve_toJson {e : Expander} {d : Document}
    (h : Apart (d.withTexts e.expand).toJson.keyLists) :
    e.resolve d.toJson = (d.withTexts e.expand).toJson := by
  have hplace : d.toJson.withTexts e.expand = (d.withTexts e.expand).toJson :=
    d.withTexts_toJson e.keepsPlain_expand
  rw [← hplace, ← e.unlessBlank_expand] at h
  rw [resolve, Json.mapText_eq_withTexts h, e.unlessBlank_expand, hplace]

/-- **A document that was read is resolved as the document with every text expanded in its place
exactly when the keys of that are apart.** -/
theorem resolveDocument_eq_ok_iff {format : SourceFormat} {origin text : String} {d : Document}
    (h : Document.ofText format origin text = .ok d) (e : Expander) :
    e.resolveDocument d = .ok (d.withTexts e.expand) ↔ (d.withTexts e.expand).KeysApart := by
  obtain ⟨draft, hdraft⟩ := Document.exists_draft_of_ofText h
  have hkeys := d.goesByKeys e.expand (Document.rereads hdraft).again
  constructor
  · intro hresolved
    exact hkeys.mp (Document.rereads hresolved).again
  · intro hapart
    have hback : Document.ofDraft (d.withTexts e.expand).toJson.draft = .ok _ := hkeys.mpr hapart
    have htree : Apart (d.withTexts e.expand).toJson.keyLists :=
      (Json.readsBack_iff _).mp (Document.rereads hback).readFrom.readsBack
    rw [resolveDocument, resolve_toJson htree]
    exact hback

/-! ### An extension under a key with a token -/

/-- Has a value for the token `k`. -/
def valued (value : String) : Expander where
  layers := [.system [("k", value)]]

def tokenKeyText : String :=
  "\x7b\"info\":\x7b\"title\":\"Pets\",\"version\":\"1.0\",\"$\x7bk\x7d\":[1]\x7d\x7d"

/-- A document whose info has a list under the key. -/
def listUnder (key : String) : Document where
  info := some { title := "Pets", version := "1.0", extensions := [(key, .arr [.num (.int 1)])] }

theorem ofText_tokenKeyText (origin : String) :
    Document.ofText .json origin tokenKeyText = .ok (listUnder "$\x7bk\x7d") := by
  have hread : Draft.read tokenKeyText = .record
      [("info", .record [("title", .str "Pets"), ("version", .str "1.0"),
        ("$\x7bk\x7d", .list [.num (.int 1)])] .closed)] .closed := rfl
  rw [Document.ofText, Document.read, hread]
  rfl

/-- Where the token stands for a key of its own, the list stays an extension. -/
theorem resolveDocument_of_owner :
    Document.ofText .json "pets.json" tokenKeyText = .ok (listUnder "$\x7bk\x7d") ∧
      (valued "owner").resolveDocument (listUnder "$\x7bk\x7d") = .ok (listUnder "owner") :=
  ⟨ofText_tokenKeyText _,
    (resolveDocument_eq_ok_iff (ofText_tokenKeyText "pets.json") (valued "owner")).mpr (by decide)⟩

/-- Where the token stands for the name of a field, the list is read as the value of the field. -/
theorem resolveDocument_of_description :
    Document.ofText .json "pets.json" tokenKeyText = .ok (listUnder "$\x7bk\x7d") ∧
      (valued "description").resolveDocument (listUnder "$\x7bk\x7d") =
        .error (.mismatch [.key "info", .key "description"] (.wrongType .sequence .scalar)) :=
  ⟨ofText_tokenKeyText _, rfl⟩

end Expander

end ApiAssembly
