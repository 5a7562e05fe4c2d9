import ApiAssembly.Output.Format
import ApiAssembly.Output.Slug
import ApiAssembly.Partition
import ApiAssembly.Placeholder.Expander
import ApiAssembly.Warning

/-!
# Output — Filename — names of output files

Without settings a file is named after the title and the version of its document. A configured name
takes the place of that; its tokens are expanded and `version` is the version of the document. With
several outputs a group's own name counts, or else the group and the version are added to the name,
and `apiVersion`, `version` and `group` are filled in after the expansion. A name that still has a
token is reported.
-/

namespace ApiAssembly

/-- The token of a name, as it stands in a text. -/
def tokenText (name : String) : String := String.ofList (Placeholder.tokenChars name.toList)

/-- The name of a file whose document has no title. -/
def defaultStem : String := "swagger"

/-- The text without another one that it ends in. -/
def dropSuffix (suffix s : String) : String :=
  if suffix.toList.isSuffixOf s.toList then
    String.ofList (s.toList.take (s.toList.length - suffix.toList.length))
  else s

/-- What the names of files go by. -/
structure FilenameRule where
  count : Nat
  format : OutputFormat
  configured : Option String := none
  expander : Expander := {}
  [slugger : Slugger]

/-- The name that the title and the version of a document give. -/
def titleStem (slugger : Slugger) (info : Option Info) : String :=
  match info with
  | none   => defaultStem
  | some i =>
    let title := slugger.slug i.title
    let stem := if title.isEmpty then defaultStem else title
    if i.version.isEmpty then stem else stem ++ "-" ++ i.version

namespace FilenameRule

def infoVersion (o : OutputDocument) : String := (o.document.info.map Info.version).getD ""

/-- The configured name, unless it is blank. -/
def configured? (r : FilenameRule) : Option String :=
  r.configured.filter fun name => !blankText name

/-- The name of a file that goes by its document alone. -/
def baseName (r : FilenameRule) (o : OutputDocument) : String :=
  match r.configured? with
  | some name =>
    replaceText (tokenText "version") (infoVersion o) (r.expander.expand name ++ r.format.extension)
  | none      => titleStem r.slugger o.document.info ++ r.format.extension

/-- The stem of a file name among several: the group's own, else the base name with the group and
the version behind it. -/
def groupStem (r : FilenameRule) (o : OutputDocument) : String :=
  match o.filename.filter fun name => !name.isEmpty with
  | some name => name
  | none      =>
    (o.key.group.toList ++ o.key.version.toList).foldl (fun stem part => stem ++ "-" ++ part)
      (dropSuffix r.format.extension (r.baseName o))

/-- The name of a file among several. -/
def groupName (r : FilenameRule) (o : OutputDocument) : String :=
  let expanded := r.expander.expand (r.groupStem o) ++ r.format.extension
  let expanded := replaceText (tokenText "apiVersion") (o.key.version.getD (infoVersion o)) expanded
  let expanded := replaceText (tokenText "version") (infoVersion o) expanded
  replaceText (tokenText "group") (o.key.group.getD "") expanded

/-- The name of the file of an output. -/
def filename (r : FilenameRule) (o : OutputDocument) : String :=
  if 1 < r.count then r.groupName o else r.baseName o

/-- The texts that are expanded for a name. -/
def expandedTexts (r : FilenameRule) (o : OutputDocument) : List String :=
  r.configured?.toList ++ (if 1 < r.count then [r.groupStem o] else [])

/-- The tokens that naming a file leaves unresolved. -/
def unresolved (r : FilenameRule) (o : OutputDocument) : List String :=
  (r.expandedTexts o).flatMap r.expander.unresolved

/-- The warning for a name that still has a token. -/
def warnings (filename : String) : List Warning :=
  if Placeholder.opensToken filename.toList then [.unresolvedFilename filename] else []

end FilenameRule

end ApiAssembly
