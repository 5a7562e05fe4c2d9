import ApiAssembly.Proofs.CommandLine.LatinSlugs
import ApiAssembly.Proofs.Files.Children
import ApiAssembly.Proofs.Output.Names
import ApiAssembly.Proofs.Placeholder.References

/-!
# Proofs — Output — the directory that outputs go to

Several outputs go into one directory, each behind its path by its file name.  A name that is not
configured begins with the slug of the title and ends with the extension, so it makes the path of a
direct child exactly when no slash is in it (`PathText.isChild_join_iff`).  There is none in a slug,
whatever slugger makes it, as long as it does what is expected of one (`Slugger.WritesSlugs`).  The
version of the document, the group and the version of the output are put behind it as they are: a
slash in one of them makes a directory of what is in front of it, and the output leaves its own
(`Assembler.writesInto_iff`).
-/

namespace ApiAssembly

/-! ### Characters of slugs -/

theorem IsSlugChar.ne {c d : Char} (h : IsSlugChar c) (hd : ¬ IsSlugChar d) : c ≠ d :=
  fun he => hd (he ▸ h)

/-! ### Names that are not configured -/

theorem dropSuffix_append (s suffix : String) : dropSuffix suffix (s ++ suffix) = s := by
  have hsuffix : suffix.toList.isSuffixOf (s ++ suffix).toList := by
    rw [String.toList_append, List.isSuffixOf_iff_suffix]
    exact List.suffix_append _ _
  rw [dropSuffix, if_pos hsuffix, String.toList_append, List.length_append, Nat.add_sub_cancel,
    List.take_left, String.ofList_toList]

/-- What stands behind the title for a version. -/
def versionPart (version : String) : List Char :=
  if version.isEmpty then [] else '-' :: version.toList

/-- A title and a version make a slug with the version behind it. -/
theorem exists_titleStem_eq {slugger : Slugger} (hslugs : slugger.WritesSlugs)
    (info : Option Info) :
    ∃ c stem, (∀ d ∈ c :: stem, IsSlugChar d) ∧
      (titleStem slugger info).toList =
        c :: stem ++ versionPart ((info.map Info.version).getD "") := by
  have hall : defaultStem.toList.all fun d => IsSlugChar d := by decide
  have hdefault : ∀ d ∈ defaultStem.toList, IsSlugChar d :=
    fun d hd => of_decide_eq_true (List.all_eq_true.mp hall d hd)
  cases info with
  | none => exact ⟨'s', "wagger".toList, hdefault, by rw [titleStem]; rfl⟩
  | some i =>
    let slug := slugger.slug i.title
    have hstem : ∀ d ∈ (if slug.isEmpty then defaultStem else slug).toList, IsSlugChar d := by
      split
      · exact hdefault
      · exact hslugs i.title
    have hne : (if slug.isEmpty then defaultStem else slug).toList ≠ [] := by
      split
      case isTrue => decide
      case isFalse h => simpa using h
    obtain ⟨c, stem, hcons⟩ := List.exists_cons_of_ne_nil hne
    refine ⟨c, stem, hcons ▸ hstem, ?_⟩
    rw [titleStem, ← hcons]
    dsimp only [Option.map_some, Option.getD_some]
    rw [versionPart]
    split
    · rw [List.append_nil]
    · simp [slug]

namespace FilenameRule

open Placeholder

variable {r : FilenameRule} {o : OutputDocument}

theorem replaceAll_tokenChars_append_left {name value xs : List Char} (h : '$' ∉ xs)
    (ys : List Char) : Text.replaceAll (tokenChars name) value (xs ++ ys) =
      xs ++ Text.replaceAll (tokenChars name) value ys :=
  Text.replaceAll_append_of_not_mem h ys

theorem baseStem_of_not_configured (h : r.configured? = none) :
    r.baseStem o = titleStem r.slugger o.document.info := by
  rw [baseStem, baseName, h, dropSuffix_append]

/-- The base name holds what is in the version, and apart from that nothing but a slug. -/
theorem mem_baseStem_iff (hslugs : r.slugger.WritesSlugs) (h : r.configured? = none) {c : Char}
    (hc : ¬ IsSlugChar c) : c ∈ (r.baseStem o).toList ↔ c ∈ (infoVersion o).toList := by
  obtain ⟨d, stem, hstem, heq⟩ := exists_titleStem_eq hslugs o.document.info
  have hslug : c ∉ d :: stem := fun hm => hc (hstem c hm)
  have hdash : c ≠ '-' := fun he => hc (.inl he)
  rw [baseStem_of_not_configured h, heq, List.mem_append, or_iff_right hslug, ← infoVersion,
    versionPart]
  split
  case isTrue hempty => simp [String.isEmpty_iff.mp hempty]
  case isFalse => rw [List.mem_cons, or_iff_right hdash]

/-- A label begins with the slug of the title. -/
theorem exists_head?_label (hslugs : r.slugger.WritesSlugs) (hconfigured : r.configured? = none)
    (hown : ownName? o = none) (haliases : r.expander.AliasesOpen) :
    ∃ c, IsSlugChar c ∧ (r.label o).head? = some c := by
  obtain ⟨c, stem, hstem, heq⟩ := exists_titleStem_eq hslugs o.document.info
  have hc : IsSlugChar c := hstem c List.mem_cons_self
  -- The first character is in front of all tokens, so it stays whatever is put in their places.
  have hplain : '$' ∉ [c] := fun h => hc.ne (by decide) (List.mem_singleton.mp h).symm
  have hgroup : (r.groupStem o).toList =
      [c] ++ (stem ++ versionPart (infoVersion o) ++ o.key.suffix) := by
    rw [groupStem_of_no_ownName r o hown, baseStem_of_not_configured hconfigured, heq]
    simp [infoVersion]
  have hfill (cs : List Char) : fillIn o ([c] ++ cs) = [c] ++ fillIn o cs := by
    simp only [fillIn, replaceAll_tokenChars_append_left hplain]
  refine ⟨c, hc, ?_⟩
  rw [label, hgroup, Expander.expandChars_append haliases hplain, hfill]
  rfl

/-- Where no dollar sign is in them, the texts of an output stand in its label as they are. -/
theorem not_mem_label_iff (hslugs : r.slugger.WritesSlugs) (hconfigured : r.configured? = none)
    (hown : ownName? o = none) (hinfo : '$' ∉ (infoVersion o).toList) (hkey : o.key.Lacks '$')
    {c : Char} (hc : ¬ IsSlugChar c) :
    c ∉ r.label o ↔ c ∉ (infoVersion o).toList ∧ o.key.Lacks c := by
  have hbase : '$' ∉ (r.baseStem o).toList :=
    mt (mem_baseStem_iff hslugs hconfigured (by decide)).mp hinfo
  have hdash : c ≠ '-' := fun he => hc (.inl he)
  have hsuffix : c ∈ o.key.suffix ↔ ¬ o.key.Lacks c := by
    simp [OutputKey.suffix, OutputKey.Lacks, hdash]
  rw [label_of_no_ownName r o hown hbase hkey, List.mem_append,
    mem_baseStem_iff hslugs hconfigured hc, hsuffix, not_or, not_not]

end FilenameRule

/-! ### Where outputs are written -/

namespace Emitter

theorem path_of_writeAt_eq_ok {t : FileTree} {path text written : String}
    (h : (writeAt t path text).2 = .ok written) : written = path := by
  rw [writeAt] at h
  dsimp only at h
  split at h
  · cases h
  · split at h
    · exact (Except.ok.inj h).symm
    · cases h

/-- An output among several that is written goes into the directory. -/
theorem path_of_files_eq_ok {target outDir : Option String} {t : FileTree} {r : Rendered}
    {dir path : String} (h : ((files target outDir).emit t r).2 = .ok path)
    (hdir : (targetDir? target).or outDir = some dir) (hsingle : r.single = false) :
    path = PathText.join dir r.filename := by
  have hdestination : destination? target outDir r = some (PathText.join dir r.filename) := by
    rw [destination?, hsingle, if_neg Bool.false_ne_true, Option.none_or, hdir, Option.map_some]
  rw [files] at h
  dsimp only at h
  rw [hdestination] at h
  exact path_of_writeAt_eq_ok h

end Emitter

variable {σ : Type}

/-- An answer is what the emitter answers for the output, in some state. -/
theorem Delivery.exists_of_mem_reached {em : Emitter σ} {s : σ}
    {xs : List (Except DocumentFault Prepared)} {p : Prepared × Except EmitFault String}
    (h : p ∈ reached em s xs) : .ok p.1 ∈ xs ∧ ∃ s', (em.emit s' p.1.rendered).2 = p.2 := by
  induction xs generalizing s with
  | nil => cases h
  | cons x xs ih =>
    cases x with
    | error f => cases h
    | ok x =>
      rw [reached] at h
      dsimp only at h
      rcases List.mem_cons.mp h with rfl | h
      · exact ⟨List.mem_cons_self, s, rfl⟩
      · split at h
        · cases h
        · obtain ⟨hmem, hanswer⟩ := ih h
          exact ⟨List.mem_cons_of_mem _ hmem, hanswer⟩

namespace Assembler

open FilenameRule

variable {a : Assembler} {base : Document}

/-- Every output that is written goes to the path of a direct child of a directory. -/
def WritesInto (a : Assembler) (base : Document) (em : Emitter σ) (s : σ) (dir : String) : Prop :=
  ∀ x path, (x, .ok path) ∈ a.answers base em s → PathText.IsChild dir path

/-- The paths in a report are those that outputs were written to. -/
theorem exists_answer_of_report {em : Emitter σ} {s : σ} {report : Report}
    (hbase : a.base = some base) (h : (a.finish em s).result = .ok report) {e : EmittedOutput}
    (he : e ∈ report.outputs) : ∃ x, (x, .ok e.path) ∈ a.answers base em s := by
  by_cases hready : a.Ready
  · rw [finish_of_ready hready hbase] at h
    rw [outputs_report h] at he
    obtain ⟨⟨x, answer⟩, hx, he⟩ := List.mem_filterMap.mp he
    cases answer with
    | error _ => cases he
    | ok path =>
      obtain rfl := Option.some.inj he
      exact ⟨x, hx⟩
  · rw [finish_of_not_ready hready] at h
    obtain rfl := Except.ok.inj h
    cases he

/-- No output has a name of its own where no group has. -/
theorem ownName?_of_no_names {x : Prepared} (hx : .ok x ∈ a.prepared base)
    (hgroups : ∀ group ∈ a.context.groups, group.2.filename = none) :
    ownName? x.output = none := by
  rw [ownName?_of_mem_prepared hx]
  cases hgroup : x.output.key.group.bind a.context.groups.get? with
  | none => rfl
  | some group =>
    obtain ⟨name, -, hget⟩ := Option.bind_eq_some_iff.mp hgroup
    rw [Option.bind_some, hgroups _ (Keyed.mem_of_get? hget)]
    rfl

theorem configured?_filenameRule (hname : a.context.filename? = none) :
    (a.filenameRule base).configured? = none :=
  congrArg (Option.filter _) hname

/-- Where no names are configured, the file name of one of several outputs begins and ends in
characters of a slug, so it makes the path of a direct child unless a slash is in its label. -/
theorem isChild_join_rendered_iff {x : Prepared} (hx : .ok x ∈ a.prepared base)
    (hslugs : a.context.slugger.WritesSlugs) (hcount : 1 < (a.prepared base).length)
    (hname : a.context.filename? = none)
    (hgroups : ∀ group ∈ a.context.groups, group.2.filename = none) (dir : String) :
    PathText.IsChild dir (PathText.join dir x.rendered.filename) ↔
      '/' ∉ (a.filenameRule base).label x.output := by
  have hfilename : x.rendered.filename.toList =
      (a.filenameRule base).label x.output ++ a.context.format.extension.toList := by
    rw [filename_of_mem_prepared hx hcount, toList_groupName]
    rfl
  obtain ⟨c, hc, hhead⟩ := exists_head?_label (r := a.filenameRule base) hslugs
    (configured?_filenameRule hname) (ownName?_of_no_names hx hgroups)
    a.context.aliasesOpen_expander
  have hfirst : x.rendered.filename.toList.head? = some c := by
    rw [hfilename, List.head?_append, hhead]
    rfl
  obtain ⟨d, hd, hlast⟩ :
      ∃ d, IsSlugChar d ∧ a.context.format.extension.toList.getLast? = some d := by
    cases a.context.format
    · exact ⟨'l', by decide, by decide⟩
    · exact ⟨'n', by decide, by decide⟩
  have hend : x.rendered.filename.toList.getLast? = some d := by
    rw [hfilename, List.getLast?_append, hlast]
    rfl
  have hplain : '/' ∉ a.context.format.extension.toList := by cases a.context.format <;> decide
  rw [PathText.isChild_join_iff hfirst hend ⟨hc.ne (by decide), hc.ne (by decide)⟩
    ⟨hd.ne (by decide), hd.ne (by decide)⟩, hfilename, List.mem_append, or_iff_left hplain]

/-- **When group documents stay in their directory.**  Each of several outputs that is written goes
into the directory by its file name.  Where neither a name nor those of groups are configured, its
path is that of a direct child exactly when its label has no slash; and without dollar signs in the
version of its document, its group and its version, when none of these has a slash. -/
theorem writesInto_iff {target outDir : Option String} {dir : String} (hbase : a.base = some base)
    (hslugs : a.context.slugger.WritesSlugs)
    (hdir : (Emitter.targetDir? target).or outDir = some dir)
    (hcount : 1 < (a.outputs base).length) (hname : a.context.filename? = none)
    (hgroups : ∀ group ∈ a.context.groups, group.2.filename = none) (t : FileTree) :
    let em := Emitter.files target outDir
    let rule := a.filenameRule base
    (∀ report, (a.finish em t).result = .ok report → ∀ e ∈ report.outputs,
      ∃ x, (x, .ok e.path) ∈ a.answers base em t) ∧
    (a.WritesInto base em t dir ↔
      ∀ x path, (x, .ok path) ∈ a.answers base em t → '/' ∉ rule.label x.output) ∧
    ∀ x path, (x, .ok path) ∈ a.answers base em t →
      path = PathText.join dir x.rendered.filename ∧
      (PathText.IsChild dir path ↔ '/' ∉ rule.label x.output) ∧
      ('$' ∉ (infoVersion x.output).toList → x.output.key.Lacks '$' →
        (PathText.IsChild dir path ↔
          '/' ∉ (infoVersion x.output).toList ∧ x.output.key.Lacks '/')) := by
  intro em rule
  have hprepared : 1 < (a.prepared base).length := by
    rw [prepared, List.length_map]
    exact hcount
  have hanswer : ∀ x path, (x, .ok path) ∈ a.answers base em t →
      .ok x ∈ a.prepared base ∧ path = PathText.join dir x.rendered.filename := by
    intro x path hx
    obtain ⟨hmem, s', hanswer⟩ := Delivery.exists_of_mem_reached hx
    exact ⟨hmem, Emitter.path_of_files_eq_ok hanswer hdir (single_of_mem_prepared hmem hprepared)⟩
  have hchild : ∀ x path, (x, .ok path) ∈ a.answers base em t →
      (PathText.IsChild dir path ↔ '/' ∉ rule.label x.output) := by
    intro x path hx
    obtain ⟨hmem, rfl⟩ := hanswer x path hx
    exact isChild_join_rendered_iff hmem hslugs hprepared hname hgroups dir
  refine ⟨fun report h e he => exists_answer_of_report hbase h he, forall₃_congr hchild,
    fun x path hx => ⟨(hanswer x path hx).2, hchild x path hx, fun hinfo hkey => ?_⟩⟩
  have hown := ownName?_of_no_names (hanswer x path hx).1 hgroups
  exact (hchild x path hx).trans
    (not_mem_label_iff hslugs (configured?_filenameRule hname) hown hinfo hkey (by decide))

/-- A run with two groups, of which the first has a version. -/
def versionedPets (version : String) : Assembler :=
  fed {} [.visit {} petsDocument,
    .record { url := "/a", groups := .ofList ["a"], version := some version },
    .record { url := "/b", groups := .ofList ["b"] }]

theorem writesInto_versionedPets :
    (versionedPets "v1").base.isSome ∧ (versionedPets "v1").context.slugger.WritesSlugs ∧
      1 < ((versionedPets "v1").outputs petsDocument).length ∧
      (versionedPets "v1").WritesInto petsDocument (Emitter.files none (some "out")) {} "out" := by
  have hbase : (versionedPets "v1").base = some petsDocument := rfl
  have hslugs : (versionedPets "v1").context.slugger.WritesSlugs := writesSlugs_latinSlugger
  have hdir : (Emitter.targetDir? none).or (some "out") = some "out" := rfl
  have hcount : 1 < ((versionedPets "v1").outputs petsDocument).length := by decide +kernel
  obtain ⟨-, hiff, -⟩ := writesInto_iff hbase hslugs hdir hcount rfl (by decide) {}
  have hlabels : ∀ p ∈ (versionedPets "v1").answers petsDocument
      (Emitter.files none (some "out")) {},
      '/' ∉ ((versionedPets "v1").filenameRule petsDocument).label p.1.output := by
    decide +kernel
  exact ⟨rfl, hslugs, hcount, hiff.mpr fun x path hx => hlabels (x, .ok path) hx⟩

theorem not_writesInto_of_path {em : Emitter σ} {s : σ} {dir path : String}
    (h : (a.answers base em s).any fun p => p.2.toOption = some path)
    (hchild : ¬ PathText.IsChild dir path) : ¬ a.WritesInto base em s dir := by
  intro hinto
  obtain ⟨⟨x, answer⟩, hx, hanswer⟩ := List.any_eq_true.mp h
  cases answer with
  | error _ => cases hanswer
  | ok written =>
    obtain rfl : written = path := Option.some.inj (of_decide_eq_true hanswer)
    exact hchild (hinto x written hx)

/-- A version with a slash makes a directory in the directory, and one that climbs leaves it. -/
theorem not_writesInto_slashedVersion :
    ¬ (versionedPets "1/2").WritesInto petsDocument (Emitter.files none (some "out")) {} "out" ∧
      ¬ (versionedPets "/../../x").WritesInto petsDocument (Emitter.files none (some "out")) {}
          "out" ∧
      ((versionedPets "/../../x").finish (Emitter.files none (some "out")) {}).state.isFile
        "x.yml" := by
  have hslash : (PathText.parts "out/pets-1.0-a-1/2.yml").length ≠
      (PathText.parts "out").length + 1 := by decide
  have hclimbs : (PathText.parts "out/pets-1.0-a-/../../x.yml").length ≠
      (PathText.parts "out").length + 1 := by decide
  exact ⟨not_writesInto_of_path (by decide +kernel) (PathText.not_isChild_of_length hslash),
    not_writesInto_of_path (by decide +kernel) (PathText.not_isChild_of_length hclimbs),
    by decide +kernel⟩

end Assembler

end ApiAssembly
