import ApiAssembly.Merge.Folder
import ApiAssembly.Proofs.Files.Paths
import ApiAssembly.Proofs.Text.Sets

/-!
# Proofs — Files — a tree without some of its files

Taking files out of a tree leaves all directories, so that every path leads where it led
(`locate?_without`).  Nothing is found any more at the paths that led to one of the files, and
everything else is found as before (`find?_without`).  Of the documents of a directory those are
left that are none of the files (`sourcesIn_without`).
-/

namespace ApiAssembly

namespace FileTree

/-- The tree without the entries at some locations. -/
def without (t : FileTree) (gone : List Location) : FileTree :=
  { t with entries := t.entries.filter fun e => !gone.contains e.1 }

/-- Whether a path is that of a file at one of some locations. -/
def leadsInto (t : FileTree) (gone : List Location) (path : String) : Bool :=
  !asDirectory path && (t.locate? path).any gone.contains

def isFileAt (t : FileTree) (loc : Location) : Bool :=
  match t.entryAt? loc with
  | some (.file _) => true
  | _              => false

/-- At each of the locations there is a file, under a name that can stand in a path. -/
structure HoldsFiles (t : FileTree) (gone : List Location) : Prop where
  file : ∀ loc ∈ gone, t.isFileAt loc
  named : ∀ loc ∈ gone, ∀ name ∈ loc.getLast?, PathText.IsName name

variable {t : FileTree} {gone : List Location}

theorem exists_entryAt?_of_isFileAt {loc : Location} (h : t.isFileAt loc) :
    ∃ c, t.entryAt? loc = some (.file c) := by
  rw [isFileAt] at h
  split at h
  case h_1 c hc => exact ⟨c, hc⟩
  case h_2 => cases h

theorem find?_filter_contains (es : List (Location × Entry)) (loc : Location) :
    (es.filter fun e => !gone.contains e.1).find? (fun e => e.1 == loc) =
      if gone.contains loc then none else es.find? fun e => e.1 == loc := by
  rw [List.find?_filter]
  split
  case isTrue hloc =>
    refine List.find?_eq_none.mpr fun e _ => ?_
    rw [decide_eq_true_eq, beq_iff_eq]
    rintro ⟨he, rfl⟩
    rw [hloc] at he
    cases he
  case isFalse hloc =>
    congr 1
    funext e
    by_cases he : e.1 = loc
    · subst he
      simpa using hloc
    · simp [he]

namespace HoldsFiles

variable (h : t.HoldsFiles gone)

include h

theorem exists_entryAt? {loc : Location} (hloc : gone.contains loc) :
    ∃ c, t.entryAt? loc = some (.file c) :=
  exists_entryAt?_of_isFileAt (h.file loc (List.contains_iff_mem.mp hloc))

/-- Nothing is left at the locations, and the rest is as it was. -/
theorem entryAt?_without (loc : Location) :
    (t.without gone).entryAt? loc = if gone.contains loc then none else t.entryAt? loc := by
  cases hroot : isRoot loc with
  | true =>
    have hloc : ¬ gone.contains loc := by
      intro hloc
      obtain ⟨c, hc⟩ := h.exists_entryAt? hloc
      rw [entryAt?, hroot] at hc
      cases hc
    rw [if_neg hloc, entryAt?, entryAt?, hroot]
    rfl
  | false =>
    simp only [entryAt?, hroot, without, find?_filter_contains, Bool.false_eq_true, if_false]
    split <;> rfl

theorem isDirectoryAt_without (loc : Location) :
    (t.without gone).isDirectoryAt loc = t.isDirectoryAt loc := by
  rw [isDirectoryAt, isDirectoryAt, h.entryAt?_without]
  split
  case isTrue hloc =>
    obtain ⟨c, hc⟩ := h.exists_entryAt? hloc
    rw [hc]
    rfl
  case isFalse => rfl

theorem follow_without (loc : Location) (parts : List String) :
    (t.without gone).follow loc parts = t.follow loc parts := by
  induction parts generalizing loc with
  | nil => rfl
  | cons part parts ih => simp only [follow, h.isDirectoryAt_without, ih]

/-- Every path leads where it led. -/
theorem locate?_without (path : String) : (t.without gone).locate? path = t.locate? path := by
  simp only [locate?, h.follow_without]
  rfl

/-- **What is found in a tree without some files**: nothing at their paths, and else the same. -/
theorem find?_without (path : String) :
    (t.without gone).find? path = if t.leadsInto gone path then none else t.find? path := by
  rw [find?, find?, leadsInto, h.locate?_without]
  cases hl : t.locate? path with
  | none => simp
  | some loc =>
    simp only [Option.bind_some, Option.any_some, h.entryAt?_without]
    cases hloc : gone.contains loc with
    | false => simp
    | true =>
      obtain ⟨c, hc⟩ := h.exists_entryAt? hloc
      cases hdir : asDirectory path <;> simp [hc]

/-- The path of one of the files leads to a file. -/
theorem isFile_of_leadsInto {path : String} (hpath : t.leadsInto gone path) :
    t.isFile path := by
  rw [leadsInto, Bool.and_eq_true, Bool.not_eq_true', Option.any_eq_true] at hpath
  obtain ⟨hdir, loc, hl, hloc⟩ := hpath
  obtain ⟨c, hc⟩ := h.exists_entryAt? hloc
  simp [isFile, find?, hl, hc, hdir]

theorem isFile_without (path : String) :
    (t.without gone).isFile path = (t.isFile path && !t.leadsInto gone path) := by
  rw [isFile, isFile, h.find?_without]
  cases t.leadsInto gone path <;> simp

theorem isDirectory_without (path : String) :
    (t.without gone).isDirectory path = t.isDirectory path := by
  rw [isDirectory, isDirectory, h.find?_without]
  split
  case isTrue hpath =>
    have hfile := h.isFile_of_leadsInto hpath
    rw [isFile] at hfile
    split at hfile
    case h_1 hc => rw [hc]; rfl
    case h_2 => cases hfile
  case isFalse => rfl

theorem readText?_without {path : String} (hpath : ¬ t.leadsInto gone path) :
    (t.without gone).readText? path = t.readText? path := by
  rw [readText?, readText?, h.find?_without, if_neg hpath]

end HoldsFiles

/-! ### The documents of a directory -/

theorem mem_namesIn {dir name : String} {loc : Location} (hdir : t.locate? dir = some loc) :
    name ∈ t.namesIn dir ↔ ∃ e, (loc ++ [name], e) ∈ t.entries := by
  simp only [namesIn, hdir, List.mem_filterMap]
  constructor
  · rintro ⟨⟨there, e⟩, hmem, he⟩
    dsimp only at he
    split at he
    case h_1 last hlast =>
      obtain ⟨front, rfl⟩ := List.getLast?_eq_some_iff.mp hlast
      rw [List.dropLast_concat] at he
      split at he
      case isTrue hfront =>
        obtain rfl := eq_of_beq hfront
        obtain rfl := Option.some.inj he
        exact ⟨e, hmem⟩
      case isFalse => cases he
    case h_2 => cases he
  · rintro ⟨e, hmem⟩
    exact ⟨_, hmem, by simp⟩

end FileTree

namespace Document

open FileTree

variable {files : FileTree} {gone : List Location} {dir : String}

/-- A path of a directory leads to one of the files, or its name is still in the directory. -/
theorem mem_paths_without_iff (h : files.HoldsFiles gone) (hdir : files.isDirectory dir)
    {path : String} (hpath : ¬ files.leadsInto gone path) :
    path ∈ ((files.without gone).namesIn dir).map (PathText.join dir) ↔
      path ∈ (files.namesIn dir).map (PathText.join dir) := by
  obtain ⟨loc, hl, hloc⟩ := exists_locate?_of_isDirectory hdir
  have hl' : (files.without gone).locate? dir = some loc := (h.locate?_without dir).trans hl
  have hne : dir ≠ "" := by
    rintro rfl
    cases hl
  simp only [List.mem_map]
  refine exists_congr fun name => and_congr_left fun hjoin => ?_
  rw [mem_namesIn hl, mem_namesIn hl']
  refine exists_congr fun e => ⟨fun he => (List.mem_filter.mp he).1, fun he => ?_⟩
  refine List.mem_filter.mpr ⟨he, ?_⟩
  by_contra hgone
  have hgone : gone.contains (loc ++ [name]) := by simpa using hgone
  -- The path of a name that is taken out leads to the file that it was.
  have hname : PathText.IsName name :=
    h.named _ (List.contains_iff_mem.mp hgone) name List.getLast?_concat
  refine hpath ?_
  rw [← hjoin, leadsInto, asDirectory_join hname hne, locate?_join hname hl hloc]
  exact hgone

/-- The documents of a directory are the files with a format. -/
theorem sourcesIn_eq (t : FileTree) (dir : String) :
    sourcesIn t dir =
      ((sortedTexts ((t.namesIn dir).map (PathText.join dir))).filter t.isFile).filterMap
        fun path => (SourceFormat.ofPath? path).map fun format => (path, format) := by
  rw [List.filterMap_filter, sourcesIn]

/-- The documents of a directory that are none of the files. -/
theorem sourcesIn_without (h : files.HoldsFiles gone) (hdir : files.isDirectory dir) :
    sourcesIn (files.without gone) dir =
      (sourcesIn files dir).filter fun source => !files.leadsInto gone source.1 := by
  have hpaths : (sortedTexts (((files.without gone).namesIn dir).map (PathText.join dir))).filter
        (files.without gone).isFile =
      (sortedTexts ((files.namesIn dir).map (PathText.join dir))).filter fun path =>
        files.isFile path && !files.leadsInto gone path := by
    refine filter_sortedTexts_congr fun path => ?_
    rw [h.isFile_without]
    refine and_congr_left fun hpath => ?_
    rw [Bool.and_eq_true, Bool.not_eq_true', ← Bool.not_eq_true] at hpath
    exact mem_paths_without_iff h hdir hpath.2
  rw [sourcesIn_eq, sourcesIn_eq, hpaths, List.filter_filterMap, List.filterMap_filter,
    List.filterMap_filter]
  refine List.filterMap_congr fun path _ => ?_
  cases files.isFile path <;> cases hpath : files.leadsInto gone path <;>
    cases SourceFormat.ofPath? path <;> simp [Option.filter, hpath]

end Document

end ApiAssembly
