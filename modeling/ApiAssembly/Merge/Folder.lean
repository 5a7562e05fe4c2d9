import ApiAssembly.Document.Source
import ApiAssembly.Files.Tree
import ApiAssembly.SortedTexts
import ApiAssembly.Warning

/-!
# Merge — Folder — the documents of a directory

The files of a directory whose extension is `json`, `yml` or `yaml`, in capitals or not, are
documents; they are read in the order of their paths. A file that cannot be read is reported and
passed over, and so is a path that leads to no directory.
-/

namespace ApiAssembly

/-- The format that the extension of a file tells. -/
def SourceFormat.ofPath? (path : String) : Option SourceFormat :=
  match PathText.extension? path with
  | none   => none
  | some e =>
    if equalIgnoringCase e "json" then some .json
    else if equalIgnoringCase e "yml" || equalIgnoringCase e "yaml" then some .yaml
    else none

namespace Document

/-- Reads a document from a file. -/
def ofFile (files : FileTree) (format : SourceFormat) (origin path : String) :
    Except DocumentFault Document :=
  match files.readText? path with
  | none      => .error .io
  | some text => Document.ofText format origin text

/-- The paths of the documents in a directory, in order, with their formats. -/
def sourcesIn (files : FileTree) (dir : String) : List (String × SourceFormat) :=
  (sortedTexts ((files.namesIn dir).map (PathText.join dir))).filterMap fun path =>
    if files.isFile path then (SourceFormat.ofPath? path).map fun format => (path, format) else none

/-- Reads the documents at some paths; in messages a file has its name only. -/
def loadAll (files : FileTree) : List (String × SourceFormat) → List Document × List Warning
  | []                     => ([], [])
  | (path, format) :: rest =>
    let (ds, ws) := loadAll files rest
    match Document.ofFile files format ((PathText.fileName? path).getD path) path with
    | .ok d         => (d :: ds, ws)
    | .error reason => (ds, .unreadableDocument path reason :: ws)

/-- Reads the documents of a directory. -/
def loadFolder (files : FileTree) (dir : String) : List Document × List Warning :=
  if files.isDirectory dir then loadAll files (sourcesIn files dir)
  else ([], [.notADirectory dir])

end Document

end ApiAssembly
