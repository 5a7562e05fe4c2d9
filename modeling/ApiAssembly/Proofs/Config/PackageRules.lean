import ApiAssembly.Config.Group
import ApiAssembly.Proofs.Text.Splitting

/-!
# Proofs — Config — package rules and segments

A package name has the segments between its points.  A rule without a star selects the package of
its own text, and a rule with a star at its end selects, by whole segments, each package that begins
with its stem (`PackageRule.selects_below_iff`): `com.example.*` selects `com.example.admin` and not
`com.examples`.

An empty stem has no segments, so a rule of nothing but a star would select every package.  It
selects only those that begin with a point, and the package without a name, and this is all that
keeps rules from selecting by segments (`PackageRule.bySegments_iff`).  What a rule is displayed as
is read as the same rule (`PackageRule.parse_text_parse`).
-/

namespace ApiAssembly

namespace PackageRule

/-- The segments of a package name. -/
def segments (name : List Char) : List (List Char) := Text.splitAll (· == '.') name

/-- The segments of a stem: none, where it is empty. -/
def stemSegments (stem : List Char) : List (List Char) :=
  if stem.isEmpty then [] else segments stem

/-- A rule is the stem with a star behind it, but for points in front of the star and blanks around
the rule. -/
structure HasStem (rule : String) (stem : List Char) : Prop where
  text : ∃ points, Text.trim rule.toList = stem ++ points ++ ['*'] ∧ ∀ c ∈ points, c = '.'
  no_point : stem.getLast? ≠ some '.'

/-- A rule selects the package by whole segments: with a star, when the segments of its stem begin
those of the package, and without one, when the package is the text of the rule. -/
structure BySegments (rule package : String) : Prop where
  starred : ∀ stem, HasStem rule stem →
    ((parse rule).selects package ↔ stemSegments stem <+: segments package.toList)
  whole : (Text.trim rule.toList).getLast? ≠ some '*' →
    ((parse rule).selects package ↔ package = trimText rule)

variable {rule package : String} {stem : List Char}

/-! ### Reading rules -/

theorem parse_of_hasStem (h : HasStem rule stem) : parse rule = ⟨String.ofList stem, true⟩ := by
  obtain ⟨⟨points, htext, hpoints⟩, hlast⟩ := h
  have hdrop : Text.dropEndWhile isPoint (stem ++ points) = stem :=
    (Text.dropEndWhile_append fun c hc => beq_iff_eq.mpr (hpoints c hc)).trans
      (Text.dropEndWhile_eq_self_iff.mpr hlast)
  rw [parse, htext, List.getLast?_concat, List.dropLast_concat, hdrop]
  rfl

theorem parse_of_no_star (h : (Text.trim rule.toList).getLast? ≠ some '*') :
    parse rule = ⟨trimText rule, false⟩ := by
  rw [parse]
  exact if_neg (by simpa using h)

theorem exists_hasStem (h : (Text.trim rule.toList).getLast? = some '*') :
    ∃ stem, HasStem rule stem := by
  obtain ⟨before, hbefore⟩ := List.getLast?_eq_some_iff.mp h
  obtain ⟨points, hpoints, hall⟩ := Text.exists_eq_dropEndWhile_append isPoint before
  refine ⟨Text.dropEndWhile isPoint before, ⟨points, ?_, fun c hc => eq_of_beq (hall c hc)⟩, ?_⟩
  · rw [hbefore, ← hpoints]
  · exact Text.dropEndWhile_eq_self_iff.mp (Text.dropEndWhile_idempotent isPoint before)

/-- A stem begins with no blank. -/
theorem HasStem.trimStart_eq (h : HasStem rule stem) : Text.trimStart stem = stem := by
  obtain ⟨⟨points, htext, hpoints⟩, -⟩ := h
  -- The trimmed text begins with no blank, and neither a star nor a point is one.
  have hbody : Text.trimStart (stem ++ points) = stem ++ points := by
    have htrim := Text.trim_trim rule.toList
    rw [htext, Text.trim_concat (by decide)] at htrim
    exact List.append_cancel_right htrim
  cases points with
  | nil => rwa [List.append_nil] at hbody
  | cons c points =>
    obtain rfl : c = '.' := hpoints c List.mem_cons_self
    rw [Text.trimStart_append_cons (by decide)] at hbody
    exact List.append_cancel_right hbody

/-- A rule with a star has its stem again when it is displayed. -/
theorem HasStem.displayed (h : HasStem rule stem) : HasStem (parse rule).text stem where
  text := by
    have hdisplayed : (parse rule).text.toList = stem ++ ['.'] ++ ['*'] := by
      rw [parse_of_hasStem h]
      simp [PackageRule.text]
    refine ⟨['.'], ?_, List.forall_mem_singleton.mpr rfl⟩
    rw [hdisplayed, Text.trim_concat (by decide), Text.trimStart_append_cons (by decide),
      h.trimStart_eq]
  no_point := h.no_point

/-- **What a rule is displayed as** is read as the same rule. -/
theorem parse_text_parse (rule : String) : parse (parse rule).text = parse rule := by
  by_cases hstar : (Text.trim rule.toList).getLast? = some '*'
  · obtain ⟨stem, h⟩ := exists_hasStem hstar
    rw [parse_of_hasStem h.displayed, parse_of_hasStem h]
  · have htrim : Text.trim (trimText rule).toList = Text.trim rule.toList := by
      rw [trimText, String.toList_ofList, Text.trim_trim]
    have htext : (parse rule).text = trimText rule := by
      rw [parse_of_no_star hstar]
      rfl
    have hagain : trimText (trimText rule) = trimText rule := by
      rw [trimText, htrim]
      rfl
    rw [htext, parse_of_no_star (htrim ▸ hstar), parse_of_no_star hstar, hagain]

/-! ### Selecting packages -/

/-- A rule with a star selects a package that is its own or goes on behind it with a point. -/
theorem selects_below : (⟨String.ofList stem, true⟩ : PackageRule).selects package ↔
    package.toList = stem ∨ stem ++ ['.'] <+: package.toList := by
  rw [selects, Bool.or_eq_true, beq_iff_eq, Bool.true_and, String.toList_ofList]
  refine or_congr ?_ ?_
  · rw [← String.toList_inj, String.toList_ofList]
  · constructor
    · intro h
      split at h
      case h_2 => cases h
      case h_1 c cs hstrip =>
        obtain rfl : c = '.' := eq_of_beq h
        exact ⟨cs, by rw [Text.strip?_eq_some_iff.mp hstrip, List.append_assoc]; rfl⟩
    · rintro ⟨cs, hcs⟩
      have hstrip : Text.strip? stem package.toList = some ('.' :: cs) := by
        rw [Text.strip?_eq_some_iff, ← hcs, List.append_assoc]
        rfl
      rw [hstrip]
      rfl

/-- A rule with a stem selects by whole segments. -/
theorem selects_below_iff (hstem : stem ≠ []) :
    (⟨String.ofList stem, true⟩ : PackageRule).selects package ↔
      stemSegments stem <+: segments package.toList := by
  have hempty : stem.isEmpty = false := by simpa using hstem
  rw [selects_below, stemSegments, hempty, if_neg Bool.false_ne_true, segments, segments,
    Text.splitAll_isPrefix_iff]

theorem selects_below_nil : (⟨String.ofList [], true⟩ : PackageRule).selects package ↔
    ∀ c ∈ package.toList.head?, c = '.' := by
  rw [selects_below]
  cases package.toList with
  | nil => simp
  | cons c cs => simp [eq_comm]

theorem selects_whole : (⟨trimText rule, false⟩ : PackageRule).selects package ↔
    package = trimText rule := by
  simp [selects]

/-- **A rule selects by whole segments** exactly when there is something in front of its star, or
else the package has no name or one that begins with a point. -/
theorem bySegments_iff (rule package : String) :
    (BySegments rule package ↔ (HasStem rule [] → ∀ c ∈ package.toList.head?, c = '.')) ∧
      parse (parse rule).text = parse rule := by
  refine ⟨⟨fun h hstem => ?_, fun h => ⟨fun stem hstem => ?_, fun hstar => ?_⟩⟩,
    parse_text_parse rule⟩
  · have hselects := (h.starred [] hstem).mpr (List.nil_prefix)
    rw [parse_of_hasStem hstem] at hselects
    exact selects_below_nil.mp hselects
  · rw [parse_of_hasStem hstem]
    by_cases hempty : stem = []
    · subst hempty
      exact iff_of_true (selects_below_nil.mpr (h hstem)) List.nil_prefix
    · exact selects_below_iff hempty
  · rw [parse_of_no_star hstar]
    exact selects_whole

/-- A rule for all packages selects none with a name. -/
theorem not_bySegments_star :
    HasStem "*" [] ∧ (parse "*").selects "com.example" = false ∧
      ¬ BySegments "*" "com.example" := by
  have hstem : HasStem "*" [] := ⟨⟨[], by decide, List.forall_mem_nil _⟩, by decide⟩
  have hselects : (parse "*").selects "com.example" = false := by decide
  refine ⟨hstem, hselects, fun h => ?_⟩
  have := (h.starred [] hstem).mpr List.nil_prefix
  rw [hselects] at this
  cases this

end PackageRule

end ApiAssembly
