import ApiAssembly.Files.PathText

/-!
# Files — Tree — a file tree as a value

A tree holds directories and files by their location: the names on the way from the root, which
begin with a slash, or from the place where the tree starts. Paths that are not absolute begin at
the working directory. A run reads and writes trees, so that what it does to files is a function of
the tree that it found.

`FileTree.locate?` follows a path through directories that are there. Reading distinguishes a file
that is missing from one that cannot be read as text.
-/

namespace ApiAssembly

/-- The names on the way from the root, after a slash, or from the start of the tree. -/
abbrev Location := List String

/-- What a file holds: a text, or bytes that are no text. -/
inductive Contents where
  | text (s : String)
  | binary (bytes : List Nat)
  deriving DecidableEq

/-- The contents that bytes are: a text where they are UTF-8. -/
def Contents.ofBytes (bytes : ByteArray) : Contents :=
  match String.fromUTF8? bytes with
  | some s => .text s
  | none   => .binary (bytes.toList.map UInt8.toNat)

inductive Entry where
  | directory
  | file (contents : Contents)
  deriving DecidableEq

/-- Directories and files by location, and the location of the working directory. The root and the
start of the tree are always there. -/
structure FileTree where
  entries : List (Location × Entry) := []
  home : Location := []

namespace FileTree

/-- Whether a location is there without an entry. -/
def isRoot (loc : Location) : Bool := loc == [] || loc == ["/"]

def entryAt? (t : FileTree) (loc : Location) : Option Entry :=
  if isRoot loc then some .directory
  else (t.entries.find? fun e => e.1 == loc).map Prod.snd

def isDirectoryAt (t : FileTree) (loc : Location) : Bool := t.entryAt? loc == some .directory

/-- Writes an entry; a known location keeps its place. -/
def setEntry (t : FileTree) (loc : Location) (e : Entry) : FileTree :=
  { t with entries :=
      if t.entries.any fun x => x.1 == loc then
        t.entries.map fun x => if x.1 == loc then (loc, e) else x
      else t.entries ++ [(loc, e)] }

def remove (t : FileTree) (loc : Location) : FileTree :=
  { t with entries := t.entries.filter fun x => x.1 != loc }

/-- The parts of a path, and where it starts. -/
def partsOf (t : FileTree) (path : String) : Location × List String :=
  (if PathText.isAbsolute path then ["/"] else t.home,
    ((PathText.pieces path).filter fun p => !PathText.isIdle p).map String.ofList)

/-- The location one level up; there is none above the start of the tree. -/
def up? (loc : Location) : Option Location :=
  if loc == [] then none else if loc == ["/"] then some loc else some loc.dropLast

/-- Follows the parts of a path; every one but the last has to lead to a directory. -/
def follow (t : FileTree) (loc : Location) : List String → Option Location
  | []         => some loc
  | part :: ps =>
    if !t.isDirectoryAt loc then none
    else if part == ".." then (up? loc).bind fun loc => t.follow loc ps
    else t.follow (loc ++ [part]) ps

/-- Whether a path names a directory by its form: it ends in a slash or in dots. -/
def asDirectory (path : String) : Bool :=
  match (PathText.pieces path).getLast? with
  | some last => PathText.isIdle last || last == ['.', '.']
  | none      => true

/-- The location that a path leads to; there need not be anything. -/
def locate? (t : FileTree) (path : String) : Option Location :=
  if path.isEmpty then none
  else
    let (start, parts) := t.partsOf path
    t.follow start parts

/-- What a path leads to. -/
def find? (t : FileTree) (path : String) : Option Entry :=
  match (t.locate? path).bind t.entryAt? with
  | some .directory => some .directory
  | some (.file c)  => if asDirectory path then none else some (.file c)
  | none            => none

def isDirectory (t : FileTree) (path : String) : Bool := t.find? path == some .directory

def isFile (t : FileTree) (path : String) : Bool :=
  match t.find? path with
  | some (.file _) => true
  | _              => false

def isThere (t : FileTree) (path : String) : Bool := (t.find? path).isSome

/-- The text of a file, none where there is no file or no text in it. -/
def readText? (t : FileTree) (path : String) : Option String :=
  match t.find? path with
  | some (.file (.text s)) => some s
  | _                      => none

/-- The names in a directory. -/
def namesIn (t : FileTree) (path : String) : List String :=
  match t.locate? path with
  | some loc => t.entries.filterMap fun e =>
      match e.1.getLast? with
      | some name => if e.1.dropLast == loc then some name else none
      | none      => none
  | none     => []

/-- Makes the directories on the way that the parts go; false where a file is in the way, or a name
is too long. -/
def makeAlong (t : FileTree) (loc : Location) : List String → FileTree × Bool
  | []         => (t, true)
  | part :: ps =>
    if part == ".." then
      match up? loc with
      | some loc => t.makeAlong loc ps
      | none     => (t, false)
    else
      let next := loc ++ [part]
      match t.entryAt? next with
      | some .directory => t.makeAlong next ps
      | some (.file _)  => (t, false)
      | none            =>
        if PathText.nameLimit < part.utf8ByteSize then (t, false)
        else (t.setEntry next .directory).makeAlong next ps

/-- Makes a directory with all directories on the way to it; an empty path asks for none. -/
def makeDirectories (t : FileTree) (path : String) : FileTree × Bool :=
  if !PathText.isUsable path then (t, false)
  else
    let (start, parts) := t.partsOf path
    t.makeAlong start parts

/-- Writes a file into a directory that is there; none where that cannot be done. -/
def writeText? (t : FileTree) (path text : String) : Option FileTree :=
  if asDirectory path || !PathText.isUsable path then none
  else (t.locate? path).bind fun loc =>
    let tooLong := loc.getLast?.any fun name => PathText.nameLimit < name.utf8ByteSize
    if tooLong || t.isDirectoryAt loc || !t.isDirectoryAt loc.dropLast then none
    else some (t.setEntry loc (.file (.text text)))

/-- Puts contents at a path, with the directories on the way to it. -/
def place (t : FileTree) (path : String) (contents : Contents) : FileTree :=
  let (t, _) := t.makeDirectories ((PathText.parent? path).getD "")
  match t.locate? path with
  | some loc => t.setEntry loc (.file contents)
  | none     => t

/-- The path of a location. -/
def pathOf : Location → String
  | "/" :: names => "/" ++ String.intercalate "/" names
  | names        => String.intercalate "/" names

/-- The files that are new or have other contents than before, in the order of their paths. -/
def changes (before after : FileTree) : List (String × Contents) :=
  let changed := after.entries.filterMap fun e =>
    match e.2 with
    | .directory => none
    | .file c    => if before.entryAt? e.1 == some (.file c) then none else some (pathOf e.1, c)
  changed.mergeSort fun a b => decide (a.1 ≤ b.1)

end FileTree

end ApiAssembly
