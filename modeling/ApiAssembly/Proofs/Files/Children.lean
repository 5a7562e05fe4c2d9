import ApiAssembly.Proofs.Files.Paths

/-!
# Proofs — Files — direct children of a directory

A path is that of a direct child of a directory when it has one part more, which is a name: no dot,
no two dots, and no slash in it (`IsChild`).

A file name is put behind the path of a directory as it is.  Where it begins and ends in characters
that are neither dots nor slashes, it makes the path of a direct child exactly when it has no slash:
on both sides of a slash there would be a part (`isChild_join_iff`).
-/

namespace ApiAssembly

namespace PathText

variable {dir path name : String} {c d : Char}

/-- A path is that of a direct child of a directory: it starts where the directory does, and has one
part more, which is a name. -/
structure IsChild (dir path : String) : Prop where
  isAbsolute_eq : isAbsolute path = isAbsolute dir
  parts_eq : ∃ name, IsName name ∧ parts path = parts dir ++ [name.toList]

theorem not_isChild_of_length (h : (parts path).length ≠ (parts dir).length + 1) :
    ¬ IsChild dir path := by
  rintro ⟨-, name, -, hparts⟩
  rw [hparts, List.length_append, List.length_singleton] at h
  exact h rfl

/-- What has a character other than dots and slashes has a part. -/
theorem parts_ne_nil (hmem : c ∈ path.toList) (hc : c ≠ '.' ∧ c ≠ '/') : parts path ≠ [] := by
  obtain ⟨piece, hpiece, hin⟩ := Text.exists_mem_splitAll (p := (· == '/')) hmem
    (beq_false_of_ne hc.2)
  have hidle : isIdle piece = false := by
    rw [isIdle, Bool.or_eq_false_iff, List.isEmpty_eq_false_iff, beq_eq_false_iff_ne]
    refine ⟨List.ne_nil_of_mem hin, ?_⟩
    rintro rfl
    exact hc.1 (List.mem_singleton.mp hin)
  exact List.ne_nil_of_mem (List.mem_filter.mpr ⟨hpiece, by rw [hidle]; rfl⟩)

/-- What begins in another character than a dot and has no slash is a name. -/
theorem isName_of_head (hhead : name.toList.head? = some c) (hc : c ≠ '.')
    (hslash : '/' ∉ name.toList) : IsName name := by
  obtain ⟨cs, hname⟩ := List.head?_eq_some_iff.mp hhead
  refine ⟨?_, ?_, hslash⟩
  · simp [isIdle, hname, hc]
  · simp [hname, hc]

/-- A file name with a slash inside is more than one part. -/
theorem one_lt_length_parts (hhead : name.toList.head? = some c)
    (hlast : name.toList.getLast? = some d) (hc : c ≠ '.' ∧ c ≠ '/') (hd : d ≠ '.' ∧ d ≠ '/')
    (hslash : '/' ∈ name.toList) : 1 < (parts name).length := by
  obtain ⟨front, back, hname⟩ := List.append_of_mem hslash
  have hfront : c ∈ front := by
    cases front with
    | nil =>
      rw [hname] at hhead
      exact absurd (Option.some.inj hhead).symm hc.2
    | cons x front =>
      rw [hname] at hhead
      exact Option.some.inj hhead ▸ List.mem_cons_self
  have hback : d ∈ back := by
    rw [hname, List.getLast?_append, List.getLast?_cons] at hlast
    cases hb : back.getLast? with
    | none =>
      rw [hb] at hlast
      exact absurd (Option.some.inj hlast).symm hd.2
    | some x =>
      rw [hb] at hlast
      exact Option.some.inj hlast ▸ List.mem_of_getLast? hb
  -- The slash ends the parts in front of it, and there is one on either side.
  have hparts : parts name = parts (String.ofList front) ++ parts (String.ofList back) := by
    rw [parts, parts, parts, ← List.filter_append, ← pieces_append_slash, ← hname,
      String.ofList_toList]
  have hf : parts (String.ofList front) ≠ [] :=
    parts_ne_nil (by rwa [String.toList_ofList]) hc
  have hb : parts (String.ofList back) ≠ [] :=
    parts_ne_nil (by rwa [String.toList_ofList]) hd
  rw [hparts, List.length_append]
  have := List.length_pos_iff.mpr hf
  have := List.length_pos_iff.mpr hb
  omega

/-- **A file name makes the path of a direct child exactly when it has no slash.** -/
theorem isChild_join_iff (hhead : name.toList.head? = some c)
    (hlast : name.toList.getLast? = some d) (hc : c ≠ '.' ∧ c ≠ '/') (hd : d ≠ '.' ∧ d ≠ '/')
    (dir : String) : IsChild dir (join dir name) ↔ '/' ∉ name.toList := by
  have hrelative : isAbsolute name = false := by
    rw [isAbsolute, hhead, beq_eq_false_iff_ne]
    exact fun h => hc.2 (Option.some.inj h)
  constructor
  · rintro ⟨-, n, -, hparts⟩ hslash
    rw [parts_join hrelative, List.append_cancel_left_eq] at hparts
    have hmore := one_lt_length_parts hhead hlast hc hd hslash
    rw [hparts, List.length_singleton] at hmore
    exact absurd hmore (Nat.lt_irrefl 1)
  · intro hslash
    have hname := isName_of_head hhead hc.1 hslash
    exact ⟨isAbsolute_join hrelative dir, name, hname, by
      rw [parts_join hrelative, hname.parts_eq]⟩

end PathText

end ApiAssembly
