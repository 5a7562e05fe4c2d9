import ApiAssembly.Config.Settings

/-!
# Config — Properties — properties files

An entry is a key, `=` or `:`, and a value. Blank lines and lines that begin with `#` or `!` are
comments between entries. A line that ends in a backslash which is not itself escaped goes on in
the next line, whose indentation is dropped. A key that is written again keeps its place and takes
the new value; an entry without a key is dropped.
-/

namespace ApiAssembly

namespace Properties

/-- The number of backslashes at the end of a line. -/
def backslashesAtEnd (line : List Char) : Nat := (line.reverse.takeWhile (· == '\\')).length

/-- What is left of a line that goes on in the next one. -/
def continued? (line : List Char) : Option (List Char) :=
  if backslashesAtEnd line % 2 = 1 then some line.dropLast else none

/-- Whether a line between entries holds none. -/
def isComment (line : List Char) : Bool :=
  line.isEmpty || line.head? == some '#' || line.head? == some '!'

def isSeparator (c : Char) : Bool := c == '=' || c == ':'

/-- The key and the value of an entry. -/
def splitEntry (entry : List Char) : List Char × List Char :=
  match Text.splitOnce isSeparator entry with
  | some (key, value) => (Text.trim key, Text.trimStart value)
  | none              => (Text.trim entry, [])

/-- The logical lines of a file: comments dropped and continued lines joined. `pending` is what the
lines before left to be continued. -/
def logicalLines (pending : List Char) : List (List Char) → List (List Char)
  | []            => if pending.isEmpty then [] else [pending]
  | line :: lines =>
    let line := Text.trimStart line
    if pending.isEmpty && isComment line then logicalLines [] lines
    else match continued? line with
      | some part => logicalLines (pending ++ part) lines
      | none      => (pending ++ line) :: logicalLines [] lines

/-- The entries of a properties file. -/
def parse (text : String) : Keyed String :=
  let entries := (logicalLines [] (Text.lines text.toList)).map splitEntry
  Keyed.ofList ((entries.filter fun e => !e.1.isEmpty).map fun e =>
    (String.ofList e.1, String.ofList e.2))

end Properties

end ApiAssembly
