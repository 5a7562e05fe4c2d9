import ApiAssembly.Proofs.Assembly.Settling
import ApiAssembly.Proofs.Document.Info
import ApiAssembly.Proofs.Partition.ByKey
import ApiAssembly.Proofs.Placeholder.Filling

/-!
# Proofs — Output — which outputs have one file name

Of several outputs each is named by a stem, in which the tokens are replaced and the values of the
output filled in: its *label*.  Two outputs have one file name exactly when they have one label.

* Outputs of one group with a name of its own share the stem.  Their labels differ exactly when the
  name asks for `apiVersion` and the versions differ (`label_eq_iff_of_ownName`).
* Outputs without such a name have the base name with the group and the version behind it, each
  after a dash.  Where no dash is in them, what stands behind the base name can be cut at the dashes
  (`suffix_eq_iff`), and all that is lost is whether a lone part was a group or a version
  (`Crosses`).

`filename_eq_filename_iff` puts this together for the prepared outputs of a run.  That outputs share
a name of their own, an info and so a base name, goes by the groups in their keys
(`ownName?_of_mem_prepared`, `info_congr`).
-/

namespace ApiAssembly

/-! ### The parts of a key -/

/-- A separator before each text is one between them, when an empty one comes first. -/
theorem intercalate_cons {α : Type} (sep : α) (xs : List α) (ys : List (List α)) :
    [sep].intercalate (xs :: ys) = xs ++ ys.flatMap (sep :: ·) := by
  induction ys generalizing xs with
  | nil => simp [List.intercalate]
  | cons y ys ih =>
    rw [List.flatMap_cons, List.cons_append, ← ih]
    simp [List.intercalate]

namespace OutputKey

/-- The group and the version, as far as there are any. -/
def parts (k : OutputKey) : List String := k.group.toList ++ k.version.toList

/-- The parts, each behind a dash. -/
def suffix (k : OutputKey) : List Char := k.parts.flatMap fun part => '-' :: part.toList

/-- No part of a key holds a character. -/
def Lacks (k : OutputKey) (c : Char) : Prop := ∀ part ∈ k.parts, c ∉ part.toList

instance (k : OutputKey) (c : Char) : Decidable (k.Lacks c) :=
  inferInstanceAs (Decidable (∀ _ ∈ _, _))

/-- One key is a group without a version, the other one a version of the same text without a
group. -/
def Crosses (k k' : OutputKey) : Prop :=
  ∃ part, (k = ⟨some part, none⟩ ∧ k' = ⟨none, some part⟩) ∨
    (k = ⟨none, some part⟩ ∧ k' = ⟨some part, none⟩)

theorem parts_eq_iff {k k' : OutputKey} (hne : k ≠ k') : k.parts = k'.parts ↔ k.Crosses k' := by
  constructor
  · intro h
    obtain ⟨_ | g, _ | v⟩ := k <;> obtain ⟨_ | g', _ | v'⟩ := k' <;> simp [parts] at h
    · exact absurd rfl hne
    · exact absurd (h ▸ rfl) hne
    · exact ⟨v, .inr ⟨rfl, h ▸ rfl⟩⟩
    · exact ⟨g, .inl ⟨rfl, h ▸ rfl⟩⟩
    · exact absurd (h ▸ rfl) hne
    · exact absurd (h.1 ▸ h.2 ▸ rfl) hne
  · rintro ⟨part, ⟨rfl, rfl⟩ | ⟨rfl, rfl⟩⟩ <;> rfl

/-- Cutting at the dashes gives the parts back. -/
theorem suffix_eq_iff {k k' : OutputKey} (hk : k.Lacks '-') (hk' : k'.Lacks '-') :
    k.suffix = k'.suffix ↔ k.parts = k'.parts := by
  have cut : ∀ {k : OutputKey}, k.Lacks '-' →
      k.suffix.splitOn '-' = [] :: k.parts.map String.toList := by
    intro k hk
    have hparts : ∀ l ∈ [] :: k.parts.map String.toList, '-' ∉ l := by
      intro l hl
      rcases List.mem_cons.mp hl with rfl | hl
      · exact List.not_mem_nil
      · obtain ⟨part, hpart, rfl⟩ := List.mem_map.mp hl
        exact hk part hpart
    rw [← List.splitOn_intercalate '-' hparts (List.cons_ne_nil _ _), intercalate_cons,
      List.nil_append, List.flatMap_map]
    rfl
  constructor
  · intro h
    have hcut := cut hk
    rw [h, cut hk', List.cons_inj_right] at hcut
    exact (List.map_injective_iff.mpr (fun _ _ => String.toList_injective) hcut).symm
  · intro h
    rw [suffix, suffix, h]

end OutputKey

/-! ### The stem of a name, filled in -/

namespace FilenameRule

open Placeholder

variable (r : FilenameRule) (o o' : OutputDocument)

/-- The name of its own that an output has. -/
def ownName? : Option String := o.filename.filter fun name => !name.isEmpty

/-- The base name without its extension. -/
def baseStem : String := dropSuffix r.format.extension (r.baseName o)

/-- The version of an output, or else that of its document. -/
def apiVersion : String := o.key.version.getD (infoVersion o)

/-- A text with the values of an output in the places of its tokens. -/
def fillIn (cs : List Char) : List Char :=
  Text.replaceAll (tokenChars "group".toList) (o.key.group.getD "").toList
    (Text.replaceAll (tokenChars "version".toList) (infoVersion o).toList
      (Text.replaceAll (tokenChars "apiVersion".toList) (apiVersion o).toList cs))

/-- The stem of an output among several, its tokens replaced and filled in. -/
def label : List Char := fillIn o (r.expander.expandChars (r.groupStem o).toList)

/-- A name among several is a label with the extension. -/
theorem toList_groupName : (r.groupName o).toList = r.label o ++ r.format.extension.toList := by
  have hext : '}' ∉ r.format.extension.toList := by cases r.format <;> decide
  simp only [groupName, replaceText, tokenText, Expander.expand, String.toList_ofList,
    String.toList_append, replaceAll_tokenChars_append_right hext]
  rfl

theorem groupName_eq_iff : r.groupName o = r.groupName o' ↔ r.label o = r.label o' := by
  rw [← String.toList_inj, toList_groupName, toList_groupName, List.append_cancel_right_eq]

/-! ### Outputs without a name of their own -/

theorem groupStem_of_no_ownName (h : ownName? o = none) :
    (r.groupStem o).toList = (r.baseStem o).toList ++ o.key.suffix := by
  have hfold : ∀ (parts : List String) (stem : String),
      (parts.foldl (fun stem part => stem ++ "-" ++ part) stem).toList =
        stem.toList ++ parts.flatMap fun part => '-' :: part.toList := by
    intro parts
    induction parts with
    | nil => simp
    | cons part parts ih => simp [ih]
  rw [groupStem, ← ownName?, h]
  exact hfold o.key.parts (r.baseStem o)

/-- Nothing is filled in where there is no dollar sign. -/
theorem fillIn_of_no_dollar {cs : List Char} (h : '$' ∉ cs) : fillIn o cs = cs := by
  rw [fillIn, replaceAll_tokenChars_of_no_dollar h, replaceAll_tokenChars_of_no_dollar h,
    replaceAll_tokenChars_of_no_dollar h]

theorem label_of_no_ownName (h : ownName? o = none) (hbase : '$' ∉ (r.baseStem o).toList)
    (hkey : o.key.Lacks '$') : r.label o = (r.baseStem o).toList ++ o.key.suffix := by
  have hstem : '$' ∉ (r.baseStem o).toList ++ o.key.suffix := by
    intro hm
    rcases List.mem_append.mp hm with hm | hm
    · exact hbase hm
    · obtain ⟨part, hpart, hm⟩ := List.mem_flatMap.mp hm
      rcases List.mem_cons.mp hm with he | hm
      · exact absurd he (by decide)
      · exact hkey part hpart hm
  rw [label, r.groupStem_of_no_ownName o h,
    r.expander.expandChars_of_not_opens (opensToken_of_no_dollar hstem),
    fillIn_of_no_dollar o hstem]

/-- The base name goes by the info of a document. -/
theorem baseStem_congr (h : o.document.info = o'.document.info) : r.baseStem o = r.baseStem o' := by
  rw [baseStem, baseStem, baseName, baseName, infoVersion, infoVersion, h]

/-! ### Outputs of one group with a name of its own -/

/-- What the values of an output make of a piece. -/
def written (p : Piece) : List Char :=
  textOf (fill "group".toList (o.key.group.getD "").toList
    (fill "version".toList (infoVersion o).toList
      (fill "apiVersion".toList (apiVersion o).toList [p])))

/-- Filling in goes piece by piece where every dollar sign begins a token. -/
theorem fillIn_textOf {ps : List Piece} (hps : Clean ps) (hapi : '$' ∉ (apiVersion o).toList)
    (hinfo : '$' ∉ (infoVersion o).toList) : fillIn o (textOf ps) = ps.flatMap (written o) := by
  have hapi : Clean (fill "apiVersion".toList (apiVersion o).toList ps) := hps.fill hapi
  have hinfo : Clean (fill "version".toList (infoVersion o).toList
      (fill "apiVersion".toList (apiVersion o).toList ps)) := hapi.fill hinfo
  rw [fillIn, replaceAll_textOf (by decide) _ hps, replaceAll_textOf (by decide) _ hapi,
    replaceAll_textOf (by decide) _ hinfo]
  clear hps hapi hinfo
  induction ps with
  | nil => rfl
  | cons p ps ih =>
    rw [← List.singleton_append, fill_append, fill_append, fill_append, textOf_append, ih,
      List.flatMap_append, List.flatMap_singleton, written]

/-- The token that asks for the version of an output. -/
def versionToken : Piece := .token "apiVersion".toList

theorem written_versionToken : written o versionToken = (apiVersion o).toList := by
  rw [written, versionToken, fill_token_self, fill_map_char, fill_map_char, textOf_map_char]

/-- All other pieces go by the group and the version of the document. -/
theorem written_congr {p : Piece} (hp : p ≠ versionToken) (hgroup : o.key.group = o'.key.group)
    (hinfo : infoVersion o = infoVersion o') : written o p = written o' p := by
  have hfill : ∀ value, fill "apiVersion".toList value [p] = [p] := by
    intro value
    rw [versionToken] at hp
    rw [fill_cons, if_neg hp]
    rfl
  rw [written, written, hfill, hfill, hgroup, hinfo]

/-- Labels made of one name differ exactly when it asks for the version and the versions differ. -/
theorem label_eq_iff_of_ownName {own : String} (h : ownName? o = some own)
    (h' : ownName? o' = some own) (hgroup : o.key.group = o'.key.group)
    (hinfo : infoVersion o = infoVersion o')
    (hclean : Clean (pieces (r.expander.expandChars own.toList)))
    (hversion : '$' ∉ (infoVersion o).toList) (hapi : '$' ∉ (apiVersion o).toList)
    (hapi' : '$' ∉ (apiVersion o').toList) :
    r.label o = r.label o' ↔
      versionToken ∉ pieces (r.expander.expandChars own.toList) ∨ apiVersion o = apiVersion o' := by
  have hlabel : ∀ {o : OutputDocument}, ownName? o = some own → '$' ∉ (infoVersion o).toList →
      '$' ∉ (apiVersion o).toList →
      r.label o = (pieces (r.expander.expandChars own.toList)).flatMap (written o) := by
    intro o h hversion hapi
    rw [label, groupStem, ← ownName?, h, ← fillIn_textOf o hclean hapi hversion, textOf_pieces]
  rw [hlabel h hversion hapi, hlabel h' (hinfo ▸ hversion) hapi',
    flatMap_eq_flatMap_iff fun p hp => written_congr o o' hp hgroup hinfo, written_versionToken,
    written_versionToken, String.toList_inj]

end FilenameRule

/-! ### The paths of names -/

/-- Behind one directory relative paths differ as their names do. -/
theorem PathText.join_right_inj {dir path path' : String} (h : isAbsolute path = false)
    (h' : isAbsolute path' = false) : join dir path = join dir path' ↔ path = path' := by
  rw [join, join, h, h', Bool.false_or]
  split
  · rfl
  · split
    · exact String.append_right_inj dir
    · exact String.append_right_inj (dir ++ "/")

/-- Of several outputs all go into one directory. -/
theorem Emitter.destination?_eq_iff {target outDir : Option String} {r r' : Rendered}
    (hr : r.single = false) (hr' : r'.single = false)
    (hsome : (destination? target outDir r).isSome) (habs : PathText.isAbsolute r.filename = false)
    (habs' : PathText.isAbsolute r'.filename = false) :
    destination? target outDir r = destination? target outDir r' ↔ r.filename = r'.filename := by
  have hdir : ∀ {r : Rendered}, r.single = false → destination? target outDir r =
      ((targetDir? target).or outDir).map fun dir => PathText.join dir r.filename := by
    intro r hr
    rw [destination?, hr, if_neg Bool.false_ne_true, Option.none_or]
  rw [hdir hr, Option.isSome_map] at hsome
  obtain ⟨dir, hdir'⟩ := Option.isSome_iff_exists.mp hsome
  rw [hdir hr, hdir hr', hdir', Option.map_some, Option.map_some, Option.some_inj,
    PathText.join_right_inj habs habs']

/-! ### The outputs of a run -/

/-- What can be decided of a value, if there is one. -/
theorem Reading.exists_of_any {ε α : Type} {x : Except ε α} {P : α → Prop} [DecidablePred P]
    (h : x.toOption.any fun a => P a) : ∃ a, x = .ok a ∧ P a := by
  cases x with
  | error e => cases h
  | ok a => exact ⟨a, rfl, of_decide_eq_true h⟩

namespace Assembler

open FilenameRule

variable {a : Assembler} {base : Document} {x y : Prepared}

/-- What the names of the outputs over a base document go by. -/
def filenameRule (a : Assembler) (base : Document) : FilenameRule :=
  a.context.filenameRule (a.prepared base).length

theorem exists_of_mem_prepared (hx : .ok x ∈ a.prepared base) :
    ∃ o ∈ a.outputs base, a.context.prepare (a.prepared base).length o = .ok x := by
  obtain ⟨o, ho, hx⟩ := List.mem_map.mp hx
  refine ⟨o, ho, ?_⟩
  rw [prepared, List.length_map]
  exact hx

/-- What can be decided of the outputs that have a document. -/
theorem exists_prepared_of_any (a : Assembler) (base : Document) (P : Prepared → Prop)
    [DecidablePred P] (h : (a.prepared base).any fun z => z.toOption.any fun x => P x) :
    ∃ x, .ok x ∈ a.prepared base ∧ P x := by
  obtain ⟨z, hz, hany⟩ := List.any_eq_true.mp h
  obtain ⟨x, rfl, hP⟩ := Reading.exists_of_any hany
  exact ⟨x, hz, hP⟩

/-- There are several outputs where two have different keys. -/
theorem one_lt_length_prepared (hx : .ok x ∈ a.prepared base) (hy : .ok y ∈ a.prepared base)
    (hne : x.output.key ≠ y.output.key) : 1 < (a.prepared base).length := by
  by_contra! hle
  obtain ⟨i, hi, hxi⟩ := List.getElem_of_mem hx
  obtain ⟨j, hj, hyj⟩ := List.getElem_of_mem hy
  obtain rfl : i = j := by omega
  exact hne (congrArg (fun z => z.output.key) (Except.ok.inj (hxi.symm.trans hyj)))

theorem filename_of_mem_prepared (hx : .ok x ∈ a.prepared base)
    (hcount : 1 < (a.prepared base).length) :
    x.rendered.filename = (a.filenameRule base).groupName x.output := by
  obtain ⟨o, -, hx⟩ := exists_of_mem_prepared hx
  exact (Context.output_of_prepare_eq_ok hx).2.2.1.trans (if_pos hcount)

theorem single_of_mem_prepared (hx : .ok x ∈ a.prepared base)
    (hcount : 1 < (a.prepared base).length) : x.rendered.single = false := by
  obtain ⟨o, -, hx⟩ := exists_of_mem_prepared hx
  rw [(Context.output_of_prepare_eq_ok hx).2.2.2]
  exact beq_false_of_ne hcount.ne'

/-- The name of its own that an output has is that of its group. -/
theorem ownName?_of_mem_prepared (hx : .ok x ∈ a.prepared base) :
    ownName? x.output = ((x.output.key.group.bind a.context.groups.get?).bind Group.filename).filter
      fun name => !name.isEmpty := by
  obtain ⟨o, ho, hx⟩ := exists_of_mem_prepared hx
  obtain ⟨hout, -⟩ := Context.output_of_prepare_eq_ok hx
  have hkey : x.output.key = o.key := by rw [hout]
  have hname : x.output.filename = o.filename := by rw [hout]
  rw [ownName?, hname, hkey]
  exact congrArg _ (Partitioning.filename_of_mem_outputs _ _ ho)

/-- Outputs have one info where one document is known for their groups, or none. -/
theorem info_congr (hx : .ok x ∈ a.prepared base) (hy : .ok y ∈ a.prepared base)
    (hknown : x.output.key.group.bind a.known.get? = y.output.key.group.bind a.known.get?) :
    x.output.document.info = y.output.document.info := by
  obtain ⟨o, ho, hx⟩ := exists_of_mem_prepared hx
  obtain ⟨o', ho', hy⟩ := exists_of_mem_prepared hy
  rw [(Context.output_of_prepare_eq_ok hx).1, (Context.output_of_prepare_eq_ok hy).1] at hknown
  have hseed : ∀ p : Partitioning, p.known = a.known → ∀ unified,
      p.seed unified o.key.group = p.seed unified o'.key.group := by
    intro p hp unified
    rw [Partitioning.seed, Partitioning.seed, hp, hknown]
  have hdoc := Partitioning.document_of_mem_outputs _ _ ho
  rw [hseed _ rfl, ← Partitioning.document_of_mem_outputs _ _ ho'] at hdoc
  have hinfo := congrArg Document.info hdoc
  have hext := congrArg Document.extensions hdoc
  exact a.context.info_prepare hinfo hext hx hy

/-- **When two outputs have one file name.**  Two outputs with different keys have one name exactly
when they have one label.

Outputs of a group with a name of its own have one name exactly when that name does not ask for
`apiVersion`, or they have one version.  Outputs without such a name have one name exactly when the
group and the version make one text behind the base name; when they share the base name and no dash
is in the groups and versions this is so only for a group without a version and the version of the
same text without a group.

Different names that are relative are different paths. -/
theorem filename_eq_filename_iff (hx : .ok x ∈ a.prepared base) (hy : .ok y ∈ a.prepared base)
    (hne : x.output.key ≠ y.output.key) :
    let rule := a.filenameRule base
    (x.rendered.filename = y.rendered.filename ↔ rule.label x.output = rule.label y.output) ∧
    (∀ own, ownName? x.output = some own → x.output.key.group = y.output.key.group →
      Placeholder.Clean (Placeholder.pieces (rule.expander.expandChars own.toList)) →
      '$' ∉ (infoVersion x.output).toList → '$' ∉ (apiVersion x.output).toList →
      '$' ∉ (apiVersion y.output).toList →
      (x.rendered.filename = y.rendered.filename ↔
        versionToken ∉ Placeholder.pieces (rule.expander.expandChars own.toList) ∨
          apiVersion x.output = apiVersion y.output)) ∧
    (ownName? x.output = none → ownName? y.output = none →
      '$' ∉ (rule.baseStem x.output).toList → '$' ∉ (rule.baseStem y.output).toList →
      x.output.key.Lacks '$' → y.output.key.Lacks '$' →
      (x.rendered.filename = y.rendered.filename ↔
        (rule.baseStem x.output).toList ++ x.output.key.suffix =
          (rule.baseStem y.output).toList ++ y.output.key.suffix) ∧
      (x.output.key.group.bind a.known.get? = y.output.key.group.bind a.known.get? →
        x.output.key.Lacks '-' → y.output.key.Lacks '-' →
        (x.rendered.filename = y.rendered.filename ↔ x.output.key.Crosses y.output.key))) ∧
    ∀ target outDir, (Emitter.destination? target outDir x.rendered).isSome →
      PathText.isAbsolute x.rendered.filename = false →
      PathText.isAbsolute y.rendered.filename = false →
      (Emitter.destination? target outDir x.rendered =
        Emitter.destination? target outDir y.rendered ↔
          x.rendered.filename = y.rendered.filename) := by
  intro rule
  have hcount := one_lt_length_prepared hx hy hne
  have hlabel : x.rendered.filename = y.rendered.filename ↔
      rule.label x.output = rule.label y.output := by
    rw [filename_of_mem_prepared hx hcount, filename_of_mem_prepared hy hcount, groupName_eq_iff]
  refine ⟨hlabel, ?own, ?base, ?paths⟩
  case own =>
    intro own hown hgroup hclean hversion hapi hapi'
    have hinfo : infoVersion x.output = infoVersion y.output := by
      rw [infoVersion, infoVersion, info_congr hx hy (by rw [hgroup])]
    have hown' : ownName? y.output = some own := by
      rw [← hown, ownName?_of_mem_prepared hx, ownName?_of_mem_prepared hy, hgroup]
    exact hlabel.trans
      (rule.label_eq_iff_of_ownName _ _ hown hown' hgroup hinfo hclean hversion hapi hapi')
  case base =>
    intro hown hown' hbase hbase' hkey hkey'
    rw [hlabel, rule.label_of_no_ownName _ hown hbase hkey,
      rule.label_of_no_ownName _ hown' hbase' hkey']
    refine ⟨Iff.rfl, fun hknown hdash hdash' => ?_⟩
    rw [rule.baseStem_congr _ _ (info_congr hx hy hknown), List.append_cancel_left_eq,
      OutputKey.suffix_eq_iff hdash hdash', OutputKey.parts_eq_iff hne]
  case paths =>
    intro target outDir hsome habs habs'
    exact Emitter.destination?_eq_iff (single_of_mem_prepared hx hcount)
      (single_of_mem_prepared hy hcount) hsome habs habs'

/-- A run with two versions of a group that has a name of its own, another group, and a version of
the same text as that group. -/
def namedPets (name : String) : Assembler :=
  fed { layers := [.system [("apiloom.groups.g.filename", name)]] }
    [.visit {} petsDocument,
      .record { url := "/1", groups := .ofList ["g"], version := some "1" },
      .record { url := "/2", groups := .ofList ["g"], version := some "2" },
      .record { url := "/3", groups := .ofList ["a"] },
      .record { url := "/4", version := some "a" }]

/-- Such a run with a name that asks for the group and the version. -/
def askingPets : Assembler := namedPets "${group}-api-${apiVersion}"

/-- With a name that asks for the version the two versions have different names; the group and the
version of one text have the same name all the same. -/
theorem filename_eq_filename_iff_namedPets :
    (∃ x y, .ok x ∈ askingPets.prepared petsDocument ∧ .ok y ∈ askingPets.prepared petsDocument ∧
      x.output.key = ⟨some "g", some "1"⟩ ∧ y.output.key = ⟨some "g", some "2"⟩ ∧
      x.rendered.filename ≠ y.rendered.filename) ∧
    ∃ x y, .ok x ∈ askingPets.prepared petsDocument ∧ .ok y ∈ askingPets.prepared petsDocument ∧
      x.output.key = ⟨some "a", none⟩ ∧ y.output.key = ⟨none, some "a"⟩ ∧
      x.rendered.filename = y.rendered.filename := by
  constructor
  · obtain ⟨x, hx, hkey, hown, hinfo⟩ := exists_prepared_of_any askingPets petsDocument
      (fun x => x.output.key = ⟨some "g", some "1"⟩ ∧
        ownName? x.output = some "${group}-api-${apiVersion}" ∧ infoVersion x.output = "1.0")
      (by decide +kernel)
    obtain ⟨y, hy, hkey'⟩ := exists_prepared_of_any askingPets petsDocument
      (fun y => y.output.key = ⟨some "g", some "2"⟩) (by decide +kernel)
    have hapi : apiVersion x.output = "1" := by rw [apiVersion, hkey]; rfl
    have hapi' : apiVersion y.output = "2" := by rw [apiVersion, hkey']; rfl
    obtain ⟨-, hname, -⟩ := filename_eq_filename_iff hx hy (by rw [hkey, hkey']; decide)
    have hiff := hname _ hown (by rw [hkey, hkey']) (by decide +kernel) (by rw [hinfo]; decide)
      (by rw [hapi]; decide) (by rw [hapi']; decide)
    refine ⟨x, y, hx, hy, hkey, hkey', fun h => ?_⟩
    rcases hiff.mp h with hno | heq
    · exact hno (by decide +kernel)
    · rw [hapi, hapi'] at heq
      exact absurd heq (by decide)
  · obtain ⟨x, hx, hkey, hown, hbase⟩ := exists_prepared_of_any askingPets petsDocument
      (fun x => x.output.key = ⟨some "a", none⟩ ∧ ownName? x.output = none ∧
        '$' ∉ ((askingPets.filenameRule petsDocument).baseStem x.output).toList)
      (by decide +kernel)
    obtain ⟨y, hy, hkey', hown', hbase'⟩ := exists_prepared_of_any askingPets petsDocument
      (fun y => y.output.key = ⟨none, some "a"⟩ ∧ ownName? y.output = none ∧
        '$' ∉ ((askingPets.filenameRule petsDocument).baseStem y.output).toList)
      (by decide +kernel)
    obtain ⟨-, -, hname, -⟩ := filename_eq_filename_iff hx hy (by rw [hkey, hkey']; decide)
    obtain ⟨-, hcross⟩ := hname hown hown' hbase hbase' (by rw [hkey]; decide)
      (by rw [hkey']; decide)
    have hiff := hcross (by rw [hkey, hkey']; rfl) (by rw [hkey]; decide) (by rw [hkey']; decide)
    exact ⟨x, y, hx, hy, hkey, hkey', hiff.mpr ⟨"a", .inl ⟨hkey, hkey'⟩⟩⟩

/-- Without it all outputs are emitted, and each is written over by another one. -/
theorem not_nodup_filenames_namedPets :
    ∃ report, ((namedPets "api").finish (Emitter.files none (some "out")) {}).result =
        .ok report ∧
      report.outputs.length = ((namedPets "api").prepared petsDocument).length ∧
      (report.outputs.map EmittedOutput.key).Nodup ∧
      ¬ (report.outputs.map EmittedOutput.filename).Nodup ∧
      report.outputs.map EmittedOutput.filename =
        ["api.yml", "api.yml", "pets-1.0-a.yml", "pets-1.0-a.yml"] ∧
      report.outputs.map EmittedOutput.path =
        ["out/api.yml", "out/api.yml", "out/pets-1.0-a.yml", "out/pets-1.0-a.yml"] := by
  refine ⟨{ outputs := [
    { key := ⟨some "g", some "1"⟩, filename := "api.yml", path := "out/api.yml" },
    { key := ⟨some "g", some "2"⟩, filename := "api.yml", path := "out/api.yml" },
    { key := ⟨some "a", none⟩, filename := "pets-1.0-a.yml", path := "out/pets-1.0-a.yml" },
    { key := ⟨none, some "a"⟩, filename := "pets-1.0-a.yml", path := "out/pets-1.0-a.yml" }] },
    by decide +kernel, by decide +kernel, by decide, by decide, rfl, rfl⟩

end Assembler

end ApiAssembly
