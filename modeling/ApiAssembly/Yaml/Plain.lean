import ApiAssembly.Yaml.Cursor

/-!
# Yaml — Plain — texts without quotes

A plain text ends at a colon or a comment with a blank on the right side, inside brackets also at a
flow mark. It goes on over line ends while its lines stand far enough to the right; the line ends
are folded.

`plain?` gives the text and the cursor after it, which has passed the blanks and line ends that
follow.
-/

namespace ApiAssembly

namespace Yaml

/-- How many of the next characters, none of them a blank, belong to a plain text. -/
def plainLength (flow : Bool) : List Char → Nat
  | []      => 0
  | c :: cs =>
    if isSpace c || c == '\n' || (c == ':' && (atBreak cs || (flow && atFlowMark cs))) ||
        (flow && isFlowMark c)
    then 0
    else plainLength flow cs + 1

/-- What was passed since the last character of a plain text: blanks, in reverse order, or line
ends. -/
structure PlainGap where
  blanks : List Char := []
  breaks : Nat := 0

/-- What stands for a gap in the text. -/
def PlainGap.chars (g : PlainGap) (fresh : Bool) : List Char :=
  if fresh then foldBreaks g.breaks else g.blanks.reverse

/-- Passes the blanks and line ends in a plain text. A tab in the indentation is on an empty line,
which may have a comment. -/
def plainGap? (floor : Nat) (place : Between) (g : PlainGap) (c : Cursor) :
    List Char → Option (PlainGap × Cursor)
  | []      => some (g, c)
  | x :: xs =>
    if x == '\n' then plainGap? floor .blanks ⟨[], g.breaks + 1⟩ c.passLineEnd xs
    else match place with
      | .comment   => plainGap? floor .comment g (c.passOver 1) xs
      | .emptyLine =>
        if x == '#' then plainGap? floor .comment g (c.passOver 1) xs
        else if isSpace x then plainGap? floor .emptyLine g (c.passOver 1) xs
        else none
      | .blanks    =>
        if !isSpace x then some (g, c)
        else if !c.fresh then
          plainGap? floor .blanks { g with blanks := x :: g.blanks } (c.passOver 1) xs
        else if x == '\t' && c.column < floor then
          plainGap? floor .emptyLine g (c.passOver 1) xs
        else plainGap? floor .blanks g (c.passOver 1) xs

/-- Whether a dash stands here in front of a flow mark. -/
def atFlowDash : List Char → Bool
  | '-' :: cs => atFlowMark cs
  | _         => false

/-- The rest of a plain text, whose characters so far are in reverse order. -/
def plainFrom? (flow : Bool) (floor : Nat) (read : List Char) (g : PlainGap) (c : Cursor) :
    Nat → Option (List Char × Cursor)
  | 0        => none
  | fuel + 1 =>
    if (c.fresh && atDocumentMark c.rest) || c.rest.head? == some '#' then some (read.reverse, c)
    else if flow && atFlowDash c.rest then none
    else
      let n := plainLength flow c.rest
      let (read, g, c) :=
        if n = 0 then (read, g, c)
        else ((c.rest.take n).reverse ++ ((g.chars c.fresh).reverse ++ read), {}, c.pass n)
      if c.rest.isEmpty || !atBreak c.rest then some (read.reverse, c)
      else
        match plainGap? floor .blanks g c c.rest with
        | none        => none
        | some (g, c) =>
          if !flow && c.column < floor then some (read.reverse, c)
          else plainFrom? flow floor read g c fuel

/-- The plain text at a cursor, which has at least one character; in a block its lines stand in the
column `floor` or behind it. The fuel is at least as much as there are characters. -/
def plain? (flow : Bool) (floor : Nat) (c : Cursor) (fuel : Nat) : Option (List Char × Cursor) :=
  if flow && c.column < floor then none
  else (plainFrom? flow floor [] {} c (fuel + 1)).filter fun r => !r.1.isEmpty

end Yaml

end ApiAssembly
