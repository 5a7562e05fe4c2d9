import ApiAssembly.Proofs.Output.Names
import ApiAssembly.Proofs.Placeholder.Pieces

/-!
# Proofs — Output — who owns the tokens of a file name

A configured name has a token for the version of the document, and the stem of a name among several
has tokens for the group, the version and the version of the output (`FilenameRule.ownTokens`).
They are meant to stand for what the output says, whatever the settings define
(`FilenameRule.TokensByOutput`).

A name is expanded before its own tokens are filled in, so the settings are asked first.  The names
go by the output exactly when each of these tokens that a name asks for is written as the output's
value when it stands by itself; it is where no alias is called like it and no layer has a value, and
a layer that has one comes before the output (`FilenameRule.tokensByOutput_iff`).
-/

namespace ApiAssembly

namespace FilenameRule

open Placeholder Expander

variable (r : FilenameRule) (o : OutputDocument) {texts : List (List Char)}

/-- A text as it is written in a configured name. -/
def versioned (cs : List Char) : List Char :=
  Text.replaceAll (tokenChars "version".toList) (infoVersion o).toList (r.expander.expandChars cs)

/-- A text as it is written in the stem of a name among several. -/
def labelled (cs : List Char) : List Char := fillIn o (r.expander.expandChars cs)

/-- The tokens that an output has values for, with the values. -/
def ownTokens : List (String × String) :=
  [("apiVersion", apiVersion o), ("version", infoVersion o), ("group", o.key.group.getD "")]

/-- The tokens of names stand for what the output says: the version in a configured name, and among
several outputs the group, the version and the version of the output in the stem. -/
structure TokensByOutput : Prop where
  configured : ∀ name ∈ r.configured?,
    PutsInPlace (r.versioned o) "version" (infoVersion o) name.toList
  stem : 1 < r.count → ∀ t ∈ ownTokens o,
    PutsInPlace (r.labelled o) t.1 t.2 (r.groupStem o).toList

/-! ### The two ways to write a name -/

theorem toList_baseName {name : String} (h : r.configured? = some name) :
    (r.baseName o).toList = r.versioned o name.toList ++ r.format.extension.toList := by
  have hext : '}' ∉ r.format.extension.toList := by cases r.format <;> decide
  rw [baseName, h]
  simp only [replaceText, tokenText, Expander.expand, String.toList_ofList, String.toList_append,
    replaceAll_tokenChars_append_right hext]
  rfl

/-- A file name is what is written of the configured name, or of the stem, with the extension. -/
theorem toList_filename :
    (1 < r.count → (r.filename o).toList =
      r.labelled o (r.groupStem o).toList ++ r.format.extension.toList) ∧
    (r.count ≤ 1 → ∀ name ∈ r.configured?, (r.filename o).toList =
      r.versioned o name.toList ++ r.format.extension.toList) := by
  constructor
  · intro hcount
    rw [filename, if_pos hcount]
    exact r.toList_groupName o
  · intro hcount name hname
    rw [filename, if_neg (Nat.not_lt.mpr hcount)]
    exact r.toList_baseName o hname

theorem writesBy_versioned (he : r.expander.KeepsTo texts) :
    r.expander.WritesBy texts (r.versioned o) fun p =>
      textOf (fill "version".toList (infoVersion o).toList [p]) where
  text ps hps := by
    obtain ⟨hexpand, hfound⟩ := expandChars_textOf he hps
    rw [versioned, hexpand, replaceAll_textOf (by decide) _ (hfound.cut he).clean, fill,
      textOf_flatMap]
    exact List.flatMap_congr fun p _ => by rw [fill, List.flatMap_singleton]
  char c := by rw [← List.map_singleton, fill_map_char, textOf_map_char]

theorem writesBy_labelled (he : r.expander.KeepsTo texts) (hinfo : '$' ∉ (infoVersion o).toList)
    (hapi : '$' ∉ (apiVersion o).toList) :
    r.expander.WritesBy texts (r.labelled o) (written o) where
  text ps hps := by
    obtain ⟨hexpand, hfound⟩ := expandChars_textOf he hps
    rw [labelled, hexpand, fillIn_textOf o (hfound.cut he).clean hapi hinfo]
  char c := by
    rw [written, ← List.map_singleton, fill_map_char, fill_map_char, fill_map_char, textOf_map_char]

/-- A token of an output is written as its value. -/
theorem written_ownToken {t : String × String} (ht : t ∈ ownTokens o) :
    written o (.token t.1.toList) = t.2.toList := by
  simp only [ownTokens, List.mem_cons, List.not_mem_nil, or_false] at ht
  rcases ht with rfl | rfl | rfl <;> dsimp only
  · exact written_versionToken o
  · rw [written, fill_token_of_ne _ (by decide), fill_token_self, fill_map_char, textOf_map_char]
  · rw [written, fill_token_of_ne _ (by decide), fill_token_of_ne _ (by decide), fill_token_self,
      textOf_map_char]

/-! ### Whose tokens they are -/

/-- The settings come first: a token is written as its own value where they leave it alone, and as
they say where they answer. -/
structure AsksSettings (e : Expander) (write : List Char → List Char) (t : String × String) :
    Prop where
  leaves : e.Leaves t.1 → write (tokenChars t.1.toList) = t.2.toList
  answers : ∀ value, e.Answers t.1 value → write (tokenChars t.1.toList) = value.toList

theorem asksSettings_of_writesBy {e : Expander} {write : List Char → List Char}
    {piece : Piece → List Char} {cs : List Char} {t : String × String}
    (h : e.WritesBy texts write piece) (hcs : cs ∈ texts) (ht : t.1 ∈ tokens cs)
    (hpiece : piece (.token t.1.toList) = t.2.toList) : AsksSettings e write t where
  leaves hleaves := (h.write_tokenChars_of_leaves hcs ht hleaves).trans hpiece
  answers _ hanswers := h.write_tokenChars_of_answers hcs ht hanswers

/-- **When the tokens of a file name stand for what the output says.**  Where every dollar sign
begins a token, in the names, in the values that come into them and in the versions, they do exactly
when each of them that a name asks for is written as the value of the output when it stands by
itself.  It is where the settings leave the token alone; where they answer, their answer is
written. -/
theorem tokensByOutput_iff (he : r.expander.KeepsTo texts)
    (hconfigured : ∀ name ∈ r.configured?, name.toList ∈ texts)
    (hstem : 1 < r.count → (r.groupStem o).toList ∈ texts ∧
      '$' ∉ (infoVersion o).toList ∧ '$' ∉ (apiVersion o).toList) :
    ((1 < r.count → (r.filename o).toList =
        r.labelled o (r.groupStem o).toList ++ r.format.extension.toList) ∧
      (r.count ≤ 1 → ∀ name ∈ r.configured?, (r.filename o).toList =
        r.versioned o name.toList ++ r.format.extension.toList)) ∧
    (r.TokensByOutput o ↔
      (∀ name ∈ r.configured?, "version" ∈ tokens name.toList →
        r.versioned o (tokenChars "version".toList) = (infoVersion o).toList) ∧
      (1 < r.count → ∀ t ∈ ownTokens o, t.1 ∈ tokens (r.groupStem o).toList →
        r.labelled o (tokenChars t.1.toList) = t.2.toList)) ∧
    (∀ name ∈ r.configured?, "version" ∈ tokens name.toList →
      AsksSettings r.expander (r.versioned o) ("version", infoVersion o)) ∧
    (1 < r.count → ∀ t ∈ ownTokens o, t.1 ∈ tokens (r.groupStem o).toList →
      AsksSettings r.expander (r.labelled o) t) := by
  have hversioned := r.writesBy_versioned o he
  have hlabelled (hcount : 1 < r.count) : r.expander.WritesBy texts (r.labelled o) (written o) :=
    r.writesBy_labelled o he (hstem hcount).2.1 (hstem hcount).2.2
  refine ⟨r.toList_filename o, ?_, fun name hname htoken => ?_, fun hcount t ht htoken => ?_⟩
  · have hname : (∀ name ∈ r.configured?,
        PutsInPlace (r.versioned o) "version" (infoVersion o) name.toList) ↔
        ∀ name ∈ r.configured?, "version" ∈ tokens name.toList →
          r.versioned o (tokenChars "version".toList) = (infoVersion o).toList :=
      forall₂_congr fun name hname => hversioned.putsInPlace_iff (hconfigured name hname)
    have hamong : (1 < r.count → ∀ t ∈ ownTokens o,
        PutsInPlace (r.labelled o) t.1 t.2 (r.groupStem o).toList) ↔
        (1 < r.count → ∀ t ∈ ownTokens o, t.1 ∈ tokens (r.groupStem o).toList →
          r.labelled o (tokenChars t.1.toList) = t.2.toList) :=
      forall₃_congr fun hcount t _ => (hlabelled hcount).putsInPlace_iff (hstem hcount).1
    rw [← hname, ← hamong]
    exact ⟨fun h => ⟨h.configured, h.stem⟩, fun h => ⟨h.1, h.2⟩⟩
  · refine asksSettings_of_writesBy hversioned (hconfigured name hname) htoken ?_
    rw [fill_token_self, textOf_map_char]
  · exact asksSettings_of_writesBy (hlabelled hcount) (hstem hcount).1 htoken
      (written_ownToken o ht)

/-! ### A layer that has a version of its own -/

/-- Two outputs of a group whose names ask for a stage of the caller, the group and a version. -/
def stagedNames : FilenameRule where
  count := 2
  format := .yaml
  configured := some "pets-${version}"
  expander := { layers := [.system [("stage", "dev")]] }

/-- An output with a name of its own for the group. -/
def stagedOutput : OutputDocument where
  key := ⟨some "admin", some "v2"⟩
  filename := some "${group}-${stage}-${apiVersion}"
  document := { info := some { title := "Pets", version := "1.0" } }

theorem tokensByOutput_stagedNames :
    stagedNames.expander.KeepsTo
        ["pets-${version}".toList, "${group}-${stage}-${apiVersion}".toList, "dev".toList] ∧
      stagedNames.TokensByOutput stagedOutput ∧
      stagedNames.filename stagedOutput = "admin-dev-v2.yml" := by
  have hkeeps : stagedNames.expander.KeepsTo
      ["pets-${version}".toList, "${group}-${stage}-${apiVersion}".toList, "dev".toList] :=
    ⟨fun _ h => absurd h List.not_mem_nil, by decide +kernel, by decide +kernel⟩
  have hconfigured : ∀ name ∈ stagedNames.configured?, name.toList ∈
      ["pets-${version}".toList, "${group}-${stage}-${apiVersion}".toList, "dev".toList] := by
    decide
  obtain ⟨-, hiff, -⟩ := stagedNames.tokensByOutput_iff stagedOutput hkeeps hconfigured
    fun _ => by decide +kernel
  exact ⟨hkeeps, hiff.mpr ⟨by decide +kernel, fun _ => by decide +kernel⟩, by decide +kernel⟩

/-- One output, with the variable of the environment that is called like the token of its name. -/
def exportedVersion : FilenameRule where
  count := 1
  format := .yaml
  configured := some "pets-${version}"
  expander := { layers := [.environment { exported := [("VERSION", "9")] }] }

/-- The variable is written in the name. -/
theorem not_tokensByOutput_exportedVersion :
    exportedVersion.filename stagedOutput = "pets-9.yml" ∧
      ¬ exportedVersion.TokensByOutput stagedOutput := by
  refine ⟨by decide +kernel, fun h => ?_⟩
  have hput := h.configured "pets-${version}" rfl ("pets-".toList.map .char) [] (by decide +kernel)
  exact absurd hput (by decide +kernel)

end FilenameRule

end ApiAssembly
