import ApiAssembly.Text.Basic

/-!
# Yaml — Cursor — places in a YAML text

A cursor is the rest of a text with the place where it begins: its line, its column, and how many
characters come before it. It is *fresh* while nothing but blanks stands before it on its line.
`toContent` passes blanks, comments and line ends; `passBlanks` stays on the line.

Line ends are line feeds here: a text is brought into this form before it is read.
-/

namespace ApiAssembly

namespace Yaml

structure Cursor where
  rest : List Char
  line : Nat := 0
  column : Nat := 0
  index : Nat := 0
  fresh : Bool := true

def isSpace (c : Char) : Bool := c == ' ' || c == '\t'

/-- Whether a character belongs to the collections in flow style. -/
def isFlowMark (c : Char) : Bool := c == ',' || c == '[' || c == ']' || c == '{' || c == '}'

/-- Whether the line ends here. -/
def atLineEnd : List Char → Bool
  | []     => true
  | c :: _ => c == '\n'

/-- Whether a blank comes next, or the line ends here. -/
def atBreak : List Char → Bool
  | []     => true
  | c :: _ => isSpace c || c == '\n'

def atSpace (cs : List Char) : Bool := cs.head?.any isSpace

def atFlowMark (cs : List Char) : Bool := cs.head?.any isFlowMark

/-- Whether three of these characters stand here, and a break after them. -/
def atMark (mark : Char) : List Char → Bool
  | a :: b :: d :: rest => a == mark && b == mark && d == mark && atBreak rest
  | _                   => false

/-- Whether the start or the end of a document is marked here. -/
def atDocumentMark (cs : List Char) : Bool := atMark '-' cs || atMark '.' cs

namespace Cursor

/-- Passes characters of the line. -/
def pass (c : Cursor) (n : Nat) : Cursor :=
  { c with rest := c.rest.drop n, column := c.column + n, index := c.index + n, fresh := false }

/-- Passes blanks and comments of the line. -/
def passOver (c : Cursor) (n : Nat) : Cursor :=
  { c with rest := c.rest.drop n, column := c.column + n, index := c.index + n }

/-- Passes a line end. -/
def passLineEnd (c : Cursor) : Cursor :=
  { rest := c.rest.drop 1, line := c.line + 1, column := 0, index := c.index + 1, fresh := true }

end Cursor

/-- The number of characters up to the end of the line. -/
def lineLength (cs : List Char) : Nat := (cs.takeWhile (· != '\n')).length

/-- The blanks of a line, and the comment after them. -/
structure Blanks where
  tab : Bool := false
  space : Bool := false
  length : Nat := 0

/-- The blanks that come next, with tabs or without; none where a comment follows without one. -/
def blanks? (tabs : Bool) (b : Blanks) : List Char → Option Blanks
  | []      => some b
  | c :: cs =>
    if c == ' ' then blanks? tabs { b with space := true, length := b.length + 1 } cs
    else if c == '\t' && tabs then blanks? tabs { b with tab := true, length := b.length + 1 } cs
    else if c == '#' then
      if b.tab || b.space then some { b with length := b.length + 1 + lineLength cs } else none
    else some b

/-- Passes the blanks of the line and a comment after them. -/
def Cursor.passBlanks? (c : Cursor) (tabs : Bool) : Option (Blanks × Cursor) :=
  (blanks? tabs {} c.rest).map fun b => (b, c.passOver b.length)

/-- What a character between tokens is part of: blanks, a comment, or a line on which a tab stands
in the indentation, so that nothing else may. -/
inductive Between where
  | blanks | comment | emptyLine

/-- Moves over blanks, comments and line ends, and says whether a line ended. Where there is a
`floor`, no tab stands in front of that column in the indentation of a line with content. -/
def skip? (floor : Option Nat) (place : Between) (c : Cursor) (ended : Bool) :
    List Char → Option (Cursor × Bool)
  | []      => some (c, ended)
  | x :: xs =>
    if x == '\n' then skip? floor .blanks c.passLineEnd true xs
    else match place with
      | .comment   => skip? floor .comment (c.passOver 1) ended xs
      | .emptyLine =>
        if x == '#' then skip? floor .comment (c.passOver 1) ended xs
        else if isSpace x then skip? floor .emptyLine (c.passOver 1) ended xs
        else none
      | .blanks    =>
        if x == '#' then skip? floor .comment (c.passOver 1) ended xs
        else if x == '\t' && c.fresh && floor.any (c.column < ·) then
          skip? floor .emptyLine (c.passOver 1) ended xs
        else if isSpace x then skip? floor .blanks (c.passOver 1) ended xs
        else some (c, ended)

/-- Moves to the next content. -/
def Cursor.toContent? (c : Cursor) (floor : Option Nat) : Option (Cursor × Bool) :=
  skip? floor .blanks c false c.rest

/-- What stands between two lines of a text with some line ends between them: one line end is a
space, and of several one is left out. -/
def foldBreaks (breaks : Nat) : List Char :=
  if breaks = 1 then [' '] else List.replicate (breaks - 1) '\n'

end Yaml

end ApiAssembly
