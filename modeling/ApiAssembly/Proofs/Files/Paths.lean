import ApiAssembly.Files.Tree
import ApiAssembly.Proofs.Text.Splitting

/-!
# Proofs — Files — the paths of the files in a directory

A path is cut at its slashes, so that a name behind the path of a directory is one part more
(`parts_join`).  Following that path ends at the name in the directory (`locate?_join`), whatever
the path of the directory looks like.
-/

namespace ApiAssembly

namespace PathText

/-- A text that can stand in a path as the name of a file. -/
structure IsName (name : String) : Prop where
  notIdle : isIdle name.toList = false
  notUp : name.toList ≠ ['.', '.']
  noSlash : '/' ∉ name.toList

instance (name : String) : Decidable (IsName name) :=
  decidable_of_iff (isIdle name.toList = false ∧ name.toList ≠ ['.', '.'] ∧ '/' ∉ name.toList)
    ⟨fun h => ⟨h.1, h.2.1, h.2.2⟩, fun h => ⟨h.notIdle, h.notUp, h.noSlash⟩⟩

variable {dir name : String}

theorem pieces_append_slash (a b : List Char) :
    pieces (String.ofList (a ++ '/' :: b)) =
      pieces (String.ofList a) ++ pieces (String.ofList b) := by
  simp only [pieces, String.toList_ofList]
  exact Text.splitAll_append_cons (by decide) a b

namespace IsName

theorem pieces_eq (h : IsName name) : pieces name = [name.toList] :=
  Text.splitAll_of_forall fun _ hc => beq_false_of_ne fun he => h.noSlash (he ▸ hc)

theorem isAbsolute_eq_false (h : IsName name) : isAbsolute name = false := by
  rw [isAbsolute, beq_eq_false_iff_ne]
  exact fun hs => h.noSlash (List.mem_of_mem_head? hs)

theorem ne_up (h : IsName name) : name ≠ ".." := by
  rintro rfl
  exact h.notUp rfl

end IsName

/-- A relative path is put behind a directory by a slash, unless there is one. -/
theorem exists_join_eq (hname : isAbsolute name = false) (hdir : dir ≠ "") :
    ∃ front, join dir name = String.ofList (front ++ '/' :: name.toList) ∧
      (dir = String.ofList (front ++ ['/']) ∨ dir = String.ofList front) := by
  have hempty : dir.isEmpty = false := by simpa using hdir
  rw [join, hname, hempty, Bool.false_or, if_neg nofun]
  split
  case isTrue hslash =>
    obtain ⟨front, hfront⟩ := List.getLast?_eq_some_iff.mp (eq_of_beq hslash)
    refine ⟨front, ?_, .inl ?_⟩
    · rw [← String.toList_inj, String.toList_append, String.toList_ofList, hfront,
        List.append_assoc]
      rfl
    · rw [← hfront, String.ofList_toList]
  case isFalse =>
    refine ⟨dir.toList, ?_, .inr String.ofList_toList.symm⟩
    have hslash : "/".toList = ['/'] := rfl
    rw [← String.toList_inj, String.toList_append, String.toList_append, hslash,
      String.toList_ofList, List.append_assoc, List.singleton_append]

theorem join_empty (path : String) : join "" path = path := by
  simp [join]

/-- Behind a directory a relative path starts where the directory does. -/
theorem isAbsolute_join (hname : isAbsolute name = false) (dir : String) :
    isAbsolute (join dir name) = isAbsolute dir := by
  by_cases hdir : dir = ""
  · rw [hdir, join_empty, hname]
    rfl
  · obtain ⟨front, hjoin, hfront⟩ := exists_join_eq hname hdir
    rw [hjoin, isAbsolute, isAbsolute, String.toList_ofList]
    rcases hfront with rfl | rfl
    · cases front <;> simp
    · cases front with
      | nil => exact absurd rfl hdir
      | cons c front => simp

/-- The parts of a path: its pieces without the idle ones. -/
def parts (path : String) : List (List Char) := (pieces path).filter fun piece => !isIdle piece

/-- Behind a directory a relative path has its parts behind those of the directory. -/
theorem parts_join (hname : isAbsolute name = false) (dir : String) :
    parts (join dir name) = parts dir ++ parts name := by
  by_cases hdir : dir = ""
  · rw [hdir, join_empty]
    rfl
  · obtain ⟨front, hjoin, hfront⟩ := exists_join_eq hname hdir
    rw [hjoin, parts, parts, parts, pieces_append_slash, String.ofList_toList, List.filter_append]
    rcases hfront with rfl | rfl
    · -- The slash at the end of the directory leaves an empty piece, which is no part.
      have hidle : (pieces (String.ofList [])).filter (fun p => !isIdle p) = [] := rfl
      rw [pieces_append_slash, List.filter_append, hidle, List.append_nil]
    · rfl

theorem IsName.parts_eq (h : IsName name) : parts name = [name.toList] := by
  rw [parts, h.pieces_eq]
  simp [h.notIdle]

/-- The name of a file is the last piece of its path. -/
theorem getLast?_pieces_join (hname : IsName name) (hdir : dir ≠ "") :
    (pieces (join dir name)).getLast? = some name.toList := by
  obtain ⟨front, hjoin, -⟩ := exists_join_eq hname.isAbsolute_eq_false hdir
  rw [hjoin, pieces_append_slash, String.ofList_toList, hname.pieces_eq, List.getLast?_concat]

end PathText

namespace FileTree

open PathText

variable {t : FileTree} {dir name : String}

theorem asDirectory_join (hname : IsName name) (hdir : dir ≠ "") :
    asDirectory (join dir name) = false := by
  simp [asDirectory, getLast?_pieces_join hname hdir, hname.notIdle, hname.notUp]

/-- A name behind the path of a directory is one part more. -/
theorem partsOf_join (hname : IsName name) (dir : String) :
    t.partsOf (join dir name) = ((t.partsOf dir).1, (t.partsOf dir).2 ++ [name]) := by
  have hrelative := hname.isAbsolute_eq_false
  rw [partsOf, partsOf, isAbsolute_join hrelative, ← parts, ← parts, parts_join hrelative,
    hname.parts_eq, List.map_append, List.map_singleton, String.ofList_toList]

theorem follow_append (t : FileTree) (loc : Location) (ps qs : List String) :
    t.follow loc (ps ++ qs) = (t.follow loc ps).bind fun loc => t.follow loc qs := by
  induction ps generalizing loc with
  | nil => rfl
  | cons part ps ih =>
    rw [List.cons_append, follow, follow]
    split
    · rfl
    · split
      · rw [Option.bind_assoc]
        exact congrArg _ (funext fun loc => ih loc)
      · exact ih _

/-- A directory is at a location that its path leads to. -/
theorem exists_locate?_of_isDirectory (h : t.isDirectory dir) :
    ∃ loc, t.locate? dir = some loc ∧ t.isDirectoryAt loc := by
  rw [isDirectory, find?, beq_iff_eq] at h
  cases hl : t.locate? dir with
  | none => rw [hl] at h; cases h
  | some loc =>
    refine ⟨loc, rfl, ?_⟩
    rw [hl, Option.bind_some] at h
    rw [isDirectoryAt]
    split at h
    case h_1 he => rw [he]; rfl
    case h_2 => split at h <;> cases h
    case h_3 => cases h

/-- A path with one part more than that of a directory leads to a name there. -/
theorem locate?_of_partsOf {path : String} {loc : Location} (hpath : path ≠ "")
    (hparts : t.partsOf path = ((t.partsOf dir).1, (t.partsOf dir).2 ++ [name]))
    (hup : name ≠ "..") (hdir : t.locate? dir = some loc) (hloc : t.isDirectoryAt loc) :
    t.locate? path = some (loc ++ [name]) := by
  have hne : dir ≠ "" := by
    rintro rfl
    cases hdir
  have hempty : dir.isEmpty = false := by simpa using hne
  have hempty' : path.isEmpty = false := by simpa using hpath
  rw [locate?, hempty, if_neg nofun] at hdir
  rw [locate?, hempty', if_neg nofun, hparts]
  dsimp only at hdir ⊢
  rw [follow_append, hdir, Option.bind_some, follow, hloc, Bool.not_true, if_neg nofun,
    if_neg (by simpa using hup), follow]

/-- The path of a file in a directory leads to its name there. -/
theorem locate?_join (hname : IsName name) {loc : Location} (hdir : t.locate? dir = some loc)
    (hloc : t.isDirectoryAt loc) : t.locate? (join dir name) = some (loc ++ [name]) := by
  have hne : dir ≠ "" := by
    rintro rfl
    cases hdir
  have hjoin : join dir name ≠ "" := by
    obtain ⟨front, he, -⟩ := exists_join_eq hname.isAbsolute_eq_false hne
    rw [he, Ne, ← String.toList_inj, String.toList_ofList]
    simp
  exact locate?_of_partsOf hjoin (partsOf_join hname dir) hname.ne_up hdir hloc

end FileTree

end ApiAssembly
