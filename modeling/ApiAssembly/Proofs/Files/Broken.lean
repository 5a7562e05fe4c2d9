import ApiAssembly.Config.Context
import ApiAssembly.Proofs.Files.Without

/-!
# Proofs — Files — files that cannot be read

A file is looked at as configuration or as a document (`Look`).  One that cannot be read there is
passed over with a warning, so that the reading comes to the same as without it, and its warnings
have one more for each look at such a file (`OnePerLook`):

* `Environment.load_without`, `ContextInput.Broken.build_without`: the context is the same;
* `Document.loadAll_without`, `Context.loadFolder_without`: the documents are the same.

A file can be looked at more than once: a list of environments may have a name twice, and an
application file may be in the directory of the additional documents.  `ContextInput.Broken` says
that files are of no use in any look at them.
-/

namespace ApiAssembly

/-! ### Looks at files -/

/-- A look at a file. -/
inductive Look where
  | config (path : String)
  | document (path : String)
  deriving DecidableEq

def Look.path : Look → String
  | .config path   => path
  | .document path => path

/-- The look that a warning reports. -/
def Warning.look? : Warning → Option Look
  | .unreadableConfig path     => some (.config path)
  | .unreadableDocument path _ => some (.document path)
  | _                          => none

/-- Whether a warning reports a look at one of some files. -/
def FileTree.concerns (t : FileTree) (gone : List Location) (w : Warning) : Bool :=
  w.look?.any fun l => t.leadsInto gone l.path

/-- No warning reports a look. -/
def Lookless (ws : List Warning) : Prop := ∀ w ∈ ws, w.look? = none

/-- Warnings that differ by one for each look at one of some files: `rest` has those of `more` that
report no such look, and those that do are for the looks, in order. -/
structure OnePerLook (t : FileTree) (gone : List Location) (looks : List Look)
    (more rest : List Warning) : Prop where
  rest : rest = more.filter fun w => !t.concerns gone w
  looks : (more.filter (t.concerns gone)).filterMap Warning.look? =
    looks.filter fun l => t.leadsInto gone l.path

namespace OnePerLook

variable {t : FileTree} {gone : List Location} {looks looks' : List Look} {l : Look} {w : Warning}
  {more more' rest rest' : List Warning}

theorem nil : OnePerLook t gone [] [] [] := ⟨rfl, rfl⟩

theorem append (h : OnePerLook t gone looks more rest)
    (h' : OnePerLook t gone looks' more' rest') :
    OnePerLook t gone (looks ++ looks') (more ++ more') (rest ++ rest') where
  rest := by rw [h.rest, h'.rest, List.filter_append]
  looks := by
    rw [List.filter_append, List.filterMap_append, h.looks, h'.looks, List.filter_append]

/-- Without a look at one of the files there is no difference. -/
theorem of_apart (hmore : ∀ w ∈ more, t.concerns gone w = false)
    (hlooks : ∀ l ∈ looks, t.leadsInto gone l.path = false) :
    OnePerLook t gone looks more more where
  rest := (List.filter_eq_self.mpr fun w hw => by rw [hmore w hw]; rfl).symm
  looks := by
    rw [List.filter_eq_nil_iff.mpr fun w hw => by simp [hmore w hw],
      List.filter_eq_nil_iff.mpr fun l hl => by simp [hlooks l hl], List.filterMap_nil]

theorem of_lookless (h : Lookless more) : OnePerLook t gone [] more more :=
  of_apart (fun w hw => by rw [FileTree.concerns, h w hw]; rfl) fun _ hl =>
    absurd hl List.not_mem_nil

theorem append_lookless (h : OnePerLook t gone looks more rest) {ws : List Warning}
    (hws : Lookless ws) : OnePerLook t gone looks (more ++ ws) (rest ++ ws) := by
  have := h.append (.of_lookless hws)
  rwa [List.append_nil] at this

/-- A look at another file, with its warning or without one. -/
theorem of_not_leads (hl : t.leadsInto gone l.path = false)
    (hmore : ∀ w ∈ more, w.look? = some l) : OnePerLook t gone [l] more more :=
  of_apart (fun w hw => by rw [FileTree.concerns, hmore w hw]; exact hl)
    (List.forall_mem_singleton.mpr hl)

/-- The warning for a look at one of the files. -/
theorem of_leads (hl : t.leadsInto gone l.path) (hw : w.look? = some l) :
    OnePerLook t gone [l] [w] [] where
  rest := by simp [FileTree.concerns, hw, hl]
  looks := by simp [FileTree.concerns, hw, hl]

end OnePerLook

namespace FileTree.HoldsFiles

variable {files : FileTree} {gone : List Location} (h : files.HoldsFiles gone)

include h

theorem isThere_without {path : String} (hpath : ¬ files.leadsInto gone path) :
    (files.without gone).isThere path = files.isThere path := by
  rw [isThere, isThere, h.find?_without, if_neg hpath]

theorem isThere_without_of_leadsInto {path : String} (hpath : files.leadsInto gone path) :
    (files.without gone).isThere path = false := by
  rw [isThere, h.find?_without, if_pos hpath]
  rfl

theorem isThere_of_leadsInto {path : String} (hpath : files.leadsInto gone path) :
    files.isThere path := by
  have hfile := h.isFile_of_leadsInto hpath
  rw [isFile] at hfile
  split at hfile
  case h_1 hc => rw [isThere, hc]; rfl
  case h_2 => cases hfile

end FileTree.HoldsFiles

/-! ### Configuration -/

section Configuration

variable {files : FileTree} {gone : List Location} (h : files.HoldsFiles gone)

include h

/-- A properties file that cannot be read is as good as none, but for its warning. -/
theorem ContextInput.loadProperties_without {path : String}
    (hbroken : files.leadsInto gone path → files.readText? path = none) :
    (loadProperties (files.without gone) path).1 = (loadProperties files path).1 ∧
      OnePerLook files gone [.config path] (loadProperties files path).2
        (loadProperties (files.without gone) path).2 := by
  by_cases hpath : files.leadsInto gone path
  · have hread : loadProperties files path = ([], [.unreadableConfig path]) := by
      rw [loadProperties, h.isThere_of_leadsInto hpath, hbroken hpath]
      rfl
    have hmissing : loadProperties (files.without gone) path = ([], []) := by
      rw [loadProperties, h.isThere_without_of_leadsInto hpath]
      rfl
    rw [hread, hmissing]
    exact ⟨rfl, .of_leads hpath rfl⟩
  · have hsame : loadProperties (files.without gone) path = loadProperties files path := by
      rw [loadProperties, loadProperties, h.isThere_without hpath, h.readText?_without hpath]
    rw [hsame]
    refine ⟨rfl, .of_not_leads (Bool.eq_false_iff.mpr hpath) fun w hw => ?_⟩
    rw [loadProperties] at hw
    split at hw
    · cases hw
    · split at hw
      · cases hw
      · obtain rfl := List.mem_singleton.mp hw
        rfl

namespace Environment

variable {dir : String} {file : String × SourceFormat} {read rest : Keyed String × List Warning}
  {looks : List Look}

/-- An application file that cannot be read leaves the keys of those before it. -/
theorem loadFile_without
    (hbroken : files.leadsInto gone (PathText.join dir file.1) →
      readTree? files (PathText.join dir file.1) file.2 = none)
    (hkeys : rest.1 = read.1) (hread : OnePerLook files gone looks read.2 rest.2) :
    (loadFile (files.without gone) dir rest file).1 = (loadFile files dir read file).1 ∧
      OnePerLook files gone (looks ++ [.config (PathText.join dir file.1)])
        (loadFile files dir read file).2 (loadFile (files.without gone) dir rest file).2 := by
  generalize hpath : PathText.join dir file.1 = path at *
  by_cases hleads : files.leadsInto gone path
  · have hwith : loadFile files dir read file = (read.1, read.2 ++ [.unreadableConfig path]) := by
      rw [loadFile, hpath, h.isFile_of_leadsInto hleads, hbroken hleads]
      rfl
    have hwithout : loadFile (files.without gone) dir rest file = (rest.1, rest.2 ++ []) := by
      rw [loadFile, hpath, h.isFile_without, hleads, Bool.not_true, Bool.and_false,
        List.append_nil]
      rfl
    rw [hwith, hwithout]
    exact ⟨hkeys, hread.append (.of_leads hleads rfl)⟩
  · have hread' : readTree? (files.without gone) path file.2 = readTree? files path file.2 := by
      rw [readTree?, readTree?, h.readText?_without hleads]
    have hfile : (files.without gone).isFile path = files.isFile path := by
      rw [h.isFile_without, Bool.eq_false_iff.mpr hleads, Bool.not_false, Bool.and_true]
    obtain ⟨keys, warnings⟩ := read
    obtain ⟨keys', warnings'⟩ := rest
    obtain rfl : keys' = keys := hkeys
    have hnone : OnePerLook files gone (looks ++ [.config path]) (warnings ++ [])
        (warnings' ++ []) :=
      hread.append (.of_not_leads (Bool.eq_false_iff.mpr hleads) nofun)
    rw [loadFile, loadFile, hpath, hfile, hread']
    rw [List.append_nil, List.append_nil] at hnone
    dsimp only
    split
    · exact ⟨rfl, hnone⟩
    · split
      · exact ⟨rfl, hnone⟩
      · refine ⟨rfl, hread.append (.of_not_leads (Bool.eq_false_iff.mpr hleads) ?_)⟩
        exact List.forall_mem_singleton.mpr rfl

/-- Application files that cannot be read leave the keys of the others. -/
theorem foldl_loadFile_without (fs : List (String × SourceFormat))
    (hbroken : ∀ file ∈ fs, files.leadsInto gone (PathText.join dir file.1) →
      readTree? files (PathText.join dir file.1) file.2 = none)
    (hkeys : rest.1 = read.1) (hread : OnePerLook files gone looks read.2 rest.2) :
    (fs.foldl (loadFile (files.without gone) dir) rest).1 =
        (fs.foldl (loadFile files dir) read).1 ∧
      OnePerLook files gone (looks ++ fs.map fun file => .config (PathText.join dir file.1))
        (fs.foldl (loadFile files dir) read).2
        (fs.foldl (loadFile (files.without gone) dir) rest).2 := by
  induction fs generalizing read rest looks with
  | nil => exact ⟨hkeys, (List.append_nil looks).symm ▸ hread⟩
  | cons file fs ih =>
    obtain ⟨hfile, hfs⟩ := List.forall_mem_cons.mp hbroken
    obtain ⟨hkeys, hread⟩ := loadFile_without h hfile hkeys hread
    rw [List.map_cons, List.append_cons]
    exact ih hfs hkeys hread

omit h in
theorem load_eq (files : FileTree) (dir : String) (environments : List String)
    (exported : List (String × String)) :
    load files dir environments exported =
      (⟨((fileNames environments).foldl (loadFile files dir) ([], [])).1, Keyed.ofList exported⟩,
        ((fileNames environments).foldl (loadFile files dir) ([], [])).2) := by
  rw [load]

/-- **Application files that cannot be read** leave the keys of the others. -/
theorem load_without {environments : List String} (exported : List (String × String))
    (hbroken : ∀ file ∈ fileNames environments, files.leadsInto gone (PathText.join dir file.1) →
      readTree? files (PathText.join dir file.1) file.2 = none) :
    (load (files.without gone) dir environments exported).1 =
        (load files dir environments exported).1 ∧
      OnePerLook files gone
        ((fileNames environments).map fun file => .config (PathText.join dir file.1))
        (load files dir environments exported).2
        (load (files.without gone) dir environments exported).2 := by
  obtain ⟨hkeys, hread⟩ := foldl_loadFile_without h (fileNames environments) hbroken
    (Eq.refl (([], []) : Keyed String × List Warning).1) .nil
  rw [load_eq, load_eq, hkeys]
  exact ⟨rfl, hread⟩

end Environment

end Configuration

/-! ### Documents -/

namespace Document

/-- The document at a path, as far as it can be read. -/
def ofSource? (files : FileTree) (source : String × SourceFormat) : Option Document :=
  (ofFile files source.2 ((PathText.fileName? source.1).getD source.1) source.1).toOption

/-- Documents that cannot be read leave the others. -/
theorem loadAll_without {files : FileTree} {gone : List Location} (h : files.HoldsFiles gone)
    {sources : List (String × SourceFormat)}
    (hbroken : ∀ source ∈ sources, files.leadsInto gone source.1 →
      ofSource? files source = none) :
    (loadAll (files.without gone)
        (sources.filter fun source => !files.leadsInto gone source.1)).1 =
        (loadAll files sources).1 ∧
      OnePerLook files gone (sources.map fun source => .document source.1)
        (loadAll files sources).2
        (loadAll (files.without gone)
          (sources.filter fun source => !files.leadsInto gone source.1)).2 := by
  induction sources with
  | nil => exact ⟨rfl, .nil⟩
  | cons source sources ih =>
    obtain ⟨path, format⟩ := source
    obtain ⟨hsource, hsources⟩ := List.forall_mem_cons.mp hbroken
    obtain ⟨hdocuments, hwarnings⟩ := ih hsources
    by_cases hpath : files.leadsInto gone path
    · rw [List.filter_cons_of_neg (by simp [hpath]), loadAll]
      dsimp only
      cases hread : ofFile files format ((PathText.fileName? path).getD path) path with
      | ok d =>
        have hnone := hsource hpath
        rw [ofSource?, hread] at hnone
        cases hnone
      | error reason =>
        have hlook : OnePerLook files gone [.document path] [.unreadableDocument path reason] [] :=
          .of_leads hpath rfl
        exact ⟨hdocuments, hlook.append hwarnings⟩
    · have hleads := Bool.eq_false_iff.mpr hpath
      have hsame (origin : String) : ofFile (files.without gone) format origin path =
          ofFile files format origin path := by
        rw [ofFile, ofFile, h.readText?_without hpath]
      rw [List.filter_cons_of_pos (by simp [hpath]), loadAll, loadAll, hsame]
      dsimp only
      split
      · have hlook : OnePerLook files gone [.document path] [] [] := .of_not_leads hleads nofun
        exact ⟨congrArg (_ :: ·) hdocuments, hlook.append hwarnings⟩
      · rename_i reason _
        have hlook : OnePerLook files gone [.document path] [.unreadableDocument path reason]
            [.unreadableDocument path reason] :=
          .of_not_leads hleads (List.forall_mem_singleton.mpr rfl)
        exact ⟨hdocuments, hlook.append hwarnings⟩

end Document

/-! ### Files that are of no use -/

namespace Context

/-- The paths of the additional documents, with their formats. -/
def documentFiles (c : Context) (files : FileTree) : List (String × SourceFormat) :=
  match c.additionalFiles? with
  | some dir => if files.isDirectory dir then Document.sourcesIn files dir else []
  | none     => []

/-- The looks at files for the first base document. -/
def documentLooks (c : Context) (files : FileTree) : List Look :=
  (c.documentFiles files).map fun source => .document source.1

end Context

namespace ContextInput

/-- The paths of the application files, with their formats. -/
def applicationFiles (input : ContextInput) (files : FileTree) : List (String × SourceFormat) :=
  let layers := (input.firstLayers files).1
  if environmentEnabled layers then
    (Environment.fileNames (environments layers)).map fun file =>
      (PathText.join input.projectDir file.1, file.2)
  else []

/-- The looks at files for the context. -/
def configLooks (input : ContextInput) (files : FileTree) : List Look :=
  .config input.propertiesPath :: (input.applicationFiles files).map fun file => .config file.1

/-- The files at some locations cannot be read in any look at them: as the properties file, as an
application file, or as an additional document. -/
structure Broken (input : ContextInput) (files : FileTree) (gone : List Location) : Prop
    extends files.HoldsFiles gone where
  properties : files.leadsInto gone input.propertiesPath →
    files.readText? input.propertiesPath = none
  application : ∀ file ∈ input.applicationFiles files, files.leadsInto gone file.1 →
    Environment.readTree? files file.1 file.2 = none
  document : ∀ source ∈ (input.build files).1.documentFiles files,
    files.leadsInto gone source.1 → Document.ofSource? files source = none

variable {input : ContextInput} {files : FileTree} {gone : List Location}

theorem firstLayers_eq (input : ContextInput) (files : FileTree) :
    input.firstLayers files =
      ([.system (Keyed.ofList input.system), .file (loadProperties files input.propertiesPath).1],
        (loadProperties files input.propertiesPath).2) := by
  rw [firstLayers]

theorem build_of_enabled (h : environmentEnabled (input.firstLayers files).1) :
    input.build files =
      (input.contextOf ((input.firstLayers files).1 ++
        [.environment (Environment.load files input.projectDir
          (environments (input.firstLayers files).1) input.exported).1]),
        (input.firstLayers files).2 ++ (Environment.load files input.projectDir
          (environments (input.firstLayers files).1) input.exported).2) := by
  rw [build]
  cases hfirst : input.firstLayers files with
  | mk layers warnings =>
    rw [hfirst] at h
    dsimp only at h ⊢
    rw [if_pos h]

theorem build_of_disabled (h : ¬ environmentEnabled (input.firstLayers files).1) :
    input.build files =
      (input.contextOf (input.firstLayers files).1, (input.firstLayers files).2) := by
  rw [build]
  cases hfirst : input.firstLayers files with
  | mk layers warnings =>
    rw [hfirst] at h
    dsimp only at h ⊢
    rw [if_neg h]

theorem Broken.firstLayers_without (h : input.Broken files gone) :
    (input.firstLayers (files.without gone)).1 = (input.firstLayers files).1 ∧
      OnePerLook files gone [.config input.propertiesPath] (input.firstLayers files).2
        (input.firstLayers (files.without gone)).2 := by
  obtain ⟨hproperties, hwarnings⟩ := loadProperties_without h.toHoldsFiles h.properties
  rw [firstLayers_eq, firstLayers_eq, hproperties]
  exact ⟨rfl, hwarnings⟩

/-- **The context without files that cannot be read** is the same. -/
theorem Broken.build_without (h : input.Broken files gone) :
    (input.build (files.without gone)).1 = (input.build files).1 ∧
      OnePerLook files gone (input.configLooks files) (input.build files).2
        (input.build (files.without gone)).2 := by
  obtain ⟨hlayers, hfirst⟩ := h.firstLayers_without
  have happlication := h.application
  rw [configLooks]
  rw [applicationFiles] at happlication ⊢
  by_cases henabled : environmentEnabled (input.firstLayers files).1
  · rw [if_pos henabled, List.forall_mem_map] at happlication
    obtain ⟨hload, hmore⟩ := Environment.load_without h.toHoldsFiles input.exported happlication
    rw [if_pos henabled]
    rw [build_of_enabled henabled, build_of_enabled (hlayers.symm ▸ henabled), hlayers, hload,
      List.map_map]
    exact ⟨rfl, hfirst.append hmore⟩
  · rw [build_of_disabled henabled, build_of_disabled (hlayers.symm ▸ henabled), hlayers,
      if_neg henabled]
    exact ⟨rfl, hfirst⟩

end ContextInput

/-- **The additional documents without files that cannot be read** are the others. -/
theorem Context.loadFolder_without {c : Context} {files : FileTree} {gone : List Location}
    (h : files.HoldsFiles gone)
    (hbroken : ∀ source ∈ c.documentFiles files, files.leadsInto gone source.1 →
      Document.ofSource? files source = none)
    {dir : String} (hdir : c.additionalFiles? = some dir) :
    (Document.loadFolder (files.without gone) dir).1 = (Document.loadFolder files dir).1 ∧
      OnePerLook files gone (c.documentLooks files) (Document.loadFolder files dir).2
        (Document.loadFolder (files.without gone) dir).2 := by
  have hfiles : c.documentFiles files =
      if files.isDirectory dir then Document.sourcesIn files dir else [] := by
    rw [documentFiles, hdir]
  rw [documentLooks, Document.loadFolder, Document.loadFolder, h.isDirectory_without]
  rw [hfiles] at hbroken ⊢
  split
  case isTrue hthere =>
    rw [if_pos hthere] at hbroken
    rw [Document.sourcesIn_without h hthere]
    exact Document.loadAll_without h hbroken
  case isFalse => exact ⟨rfl, .of_lookless (List.forall_mem_singleton.mpr rfl)⟩

end ApiAssembly
