import ApiAssembly.Json.Token
import ApiAssembly.Yaml.Cursor

/-!
# Yaml — Token — the tokens of a YAML text

Collections in block style have tokens for their start and end, which no character of the text
stands for. The names, tags and directives of a text are taken from the characters at a cursor; a
tag is a handle with a suffix, and what the handle stands for is known once the directives of the
document are.
-/

namespace ApiAssembly

namespace Yaml

/-- How a text is written. -/
inductive Style where
  | plain | quoted | block
  deriving DecidableEq

/-- A token of a YAML text. -/
inductive Token where
  | streamEnd | documentStart | documentEnd
  | version
  | tagDirective (handle whole : String)
  | blockSequence | blockMapping | blockEnd | entry
  | key | value
  | flowSequence | flowSequenceEnd | flowMapping | flowMappingEnd | comma
  | alias (name : String)
  | anchor (name : String)
  | tag (handle suffix : String)
  | scalar (style : Style) (text : List Char)

/-! ### Names -/

/-- The characters of anchors and aliases. -/
def isNameChar (c : Char) : Bool :=
  !isSpace c && c != '\n' && !isFlowMark c && c.toNat != 0xFEFF

/-- The name of an anchor or an alias behind its mark. -/
def name? (c : Cursor) : Option (String × Cursor) :=
  let name := (c.rest.drop 1).takeWhile isNameChar
  if name.isEmpty then none else some (String.ofList name, c.pass (name.length + 1))

/-! ### Tags -/

/-- The characters of directive names and handles. -/
def isHandleChar (c : Char) : Bool := c.isAlphanum || c == '-' || c == '_'

/-- The characters of a tag that is written in full. -/
def isUriChar (c : Char) : Bool :=
  c.isAlphanum || "-#;/?:@&=+$,_.!~*\x27()[]%".toList.contains c

/-- The characters of the suffix of a tag. -/
def isTagChar (c : Char) : Bool := isUriChar c && !isFlowMark c && c != '!'

def isHexDigit (c : Char) : Bool := (ApiAssembly.Token.hexValue? c).isSome

/-- Whether two hexadecimal digits stand behind every percent sign. -/
def escapesEnd : List Char → Bool
  | []      => true
  | c :: cs =>
    (c != '%' || ((cs.take 2).length == 2 && (cs.take 2).all isHexDigit)) && escapesEnd cs

/-- The characters of a class that come next, where their escapes are whole. -/
def uri? (p : Char → Bool) (cs : List Char) : Option (List Char) :=
  let uri := cs.takeWhile p
  if escapesEnd uri then some uri else none

/-- The handle that comes next: its mark, its name, and a second mark where that is there. -/
def handleChars (cs : List Char) : List Char :=
  let name := (cs.drop 1).takeWhile isHandleChar
  '!' :: name ++ if (cs.drop (name.length + 1)).head? == some '!' then ['!'] else []

/-- Whether a handle ends in a mark of its own. -/
def isMarkedHandle (handle : List Char) : Bool :=
  2 ≤ handle.length && handle.getLast? == some '!'

/-- A tag that is written in full between angle brackets. -/
def verbatimTag? (c : Cursor) : Option (Token × Cursor) :=
  (uri? isUriChar (c.rest.drop 2)).bind fun uri =>
    if (c.rest.drop (uri.length + 2)).head? == some '>' then
      some (.tag "" (String.ofList uri), c.pass (uri.length + 3))
    else none

/-- A tag of a handle and a suffix; a mark alone is a tag too. -/
def shortTag? (c : Cursor) : Option (Token × Cursor) :=
  let handle := handleChars c.rest
  (uri? isTagChar (c.rest.drop handle.length)).bind fun uri =>
    let c := c.pass (handle.length + uri.length)
    if isMarkedHandle handle then
      if uri.isEmpty then none
      else some (.tag (String.ofList handle) (String.ofList uri), c)
    else
      let suffix := handle.drop 1 ++ uri
      some (if suffix.isEmpty then .tag "" "!" else .tag "!" (String.ofList suffix), c)

/-- The tag that comes next; it ends at a break, or at a flow mark inside brackets. -/
def tag? (flow : Bool) (c : Cursor) : Option (Token × Cursor) :=
  (if (c.rest.drop 1).head? == some '<' then verbatimTag? c else shortTag? c).filter fun r =>
    atBreak r.2.rest || (flow && atFlowMark r.2.rest)

/-! ### Directives -/

/-- Passes blanks. -/
def Cursor.passSpaces (c : Cursor) : Cursor := c.passOver (c.rest.takeWhile isSpace).length

/-- Passes the digits of a part of a version. -/
def versionPart? (c : Cursor) : Option Cursor :=
  let n := (c.rest.takeWhile Char.isDigit).length
  if 1 ≤ n ∧ n ≤ 9 then some (c.pass n) else none

/-- The version behind the name of its directive. -/
def versionDirective? (c : Cursor) : Option (Token × Cursor) := do
  let c ← versionPart? c.passSpaces
  if c.rest.head? != some '.' then none
  let c ← versionPart? (c.pass 1)
  some (.version, c)

/-- What a handle stands for, behind the name of the directive. -/
def handleDirective? (c : Cursor) : Option (Token × Cursor) := do
  let c := c.passSpaces
  if c.rest.head? != some '!' then none
  let handle := handleChars c.rest
  if !isMarkedHandle handle && handle != ['!'] then none
  let c := (c.pass handle.length).passSpaces
  if !(c.rest.head?.any fun x => x == '!' || isTagChar x) then none
  let whole ← uri? isUriChar c.rest
  let c := c.pass whole.length
  if !atBreak c.rest then none
  some (.tagDirective (String.ofList handle) (String.ofList whole), c)

/-- The directive that comes next, up to the end of its line. One that is not known stands for
nothing. -/
def directive? (c : Cursor) : Option (Token × Cursor) := do
  let name := (c.rest.drop 1).takeWhile isHandleChar
  let c := c.pass (name.length + 1)
  if name.isEmpty || !atBreak c.rest then none
  let (t, c) ←
    if name == "YAML".toList then versionDirective? c
    else if name == "TAG".toList then handleDirective? c
    else some (.tagDirective "" "", c.passOver (lineLength c.rest))
  let (_, c) ← c.passBlanks? true
  if !atLineEnd c.rest then none
  some (t, if c.rest.isEmpty then c else c.passLineEnd)

end Yaml

end ApiAssembly
