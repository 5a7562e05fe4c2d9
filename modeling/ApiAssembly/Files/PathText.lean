import ApiAssembly.Text.Basic

/-!
# Files — PathText — paths as text

A path is kept as the text that it was built from; `join`, `parent?`, `fileName?` and `extension?`
work on that text. Slashes and single dots at the end, and between the parts, belong to no part; a
single dot at the start is a part of its own.
-/

namespace ApiAssembly

namespace PathText

def isAbsolute (path : String) : Bool := path.toList.head? == some '/'

/-- Whether there can be anything at a path: it has no null character and fewer than 4096 bytes. -/
def isUsable (path : String) : Bool :=
  path.utf8ByteSize < 4096 && !path.toList.any fun c => c.toNat == 0

/-- How many bytes a name may have. -/
def nameLimit : Nat := 255

/-- The second path seen from the first: itself when absolute, else behind a slash. -/
def join (base path : String) : String :=
  if isAbsolute path || base.isEmpty then path
  else if base.toList.getLast? == some '/' then base ++ path
  else base ++ "/" ++ path

/-- The pieces between slashes; an absolute path begins with an empty one. -/
def pieces (path : String) : List (List Char) := Text.splitAll (· == '/') path.toList

/-- Whether a piece is no part of a path. -/
def isIdle (piece : List Char) : Bool := piece.isEmpty || piece == ['.']

/-- The pieces without idle ones at the end; the first piece stays unless it is empty and alone. -/
def dropIdleEnd : List (List Char) → List (List Char)
  | []      => []
  | p :: ps =>
    match (ps.reverse.dropWhile isIdle).reverse with
    | []      => [p]
    | q :: qs => p :: q :: qs

/-- The text of pieces; an absolute path with nothing behind it is the root. -/
def ofPieces (ps : List (List Char)) : String :=
  match ps with
  | [[]] => "/"
  | ps   => String.ofList (Text.join ['/'] ps)

/-- The path without its last part: none for the root and for an empty path. -/
def parent? (path : String) : Option String :=
  match dropIdleEnd (pieces path) with
  | []      => none
  | [[]]    => none
  | [_]     => some ""
  | p :: ps => some (ofPieces (dropIdleEnd (p :: ps.dropLast)))

/-- The name in the last part, where that is a name. -/
def fileName? (path : String) : Option String :=
  match (dropIdleEnd (pieces path)).getLast? with
  | some name => if isIdle name || name == ['.', '.'] then none else some (String.ofList name)
  | none      => none

/-- What follows the last point of the name, where something stands before that point. -/
def extension? (path : String) : Option String :=
  match fileName? path with
  | none      => none
  | some name =>
    match Text.splitLast (· == '.') name.toList with
    | some (stem, ext) => if stem.isEmpty then none else some (String.ofList ext)
    | none             => none

end PathText

end ApiAssembly
