import ApiAssembly.Yaml.Cursor

/-!
# Yaml — BlockText — texts line by line

A literal text keeps its line ends, a folded one folds them between lines that do not begin with a
blank. The head may say how the text ends and how far it is indented; without that, the first lines
say how far. A text that breaks off in a line that is indented far enough ends with a line end.
-/

namespace ApiAssembly

namespace Yaml

/-- What becomes of the line ends at the end of a block text. -/
inductive Chomping where
  | strip | clip | keep
  deriving DecidableEq

def chomping? (c : Char) : Option Chomping :=
  if c == '+' then some .keep else if c == '-' then some .strip else none

/-- The head of a block text: how it ends, how far it is indented, and the length of the head. -/
def blockHead? : List Char → Option (Chomping × Nat × Nat)
  | []      => some (.clip, 0, 0)
  | c :: cs =>
    let width (d : Char) : Nat := d.toNat - '0'.toNat
    match chomping? c, cs.head? with
    | some k, some d =>
      if !d.isDigit then some (k, 0, 1) else if d == '0' then none else some (k, width d, 2)
    | some k, none   => some (k, 0, 1)
    | none,   d      =>
      if !c.isDigit then some (.clip, 0, 0)
      else if c == '0' then none
      else match d.bind chomping? with
        | some k => some (k, width c, 2)
        | none   => some (.clip, width c, 1)

/-- Passes the empty lines at the start of a block text, and the blanks of its first line: the
widest line of blanks, the number of line ends, and the cursor. -/
def firstLines (widest breaks : Nat) (c : Cursor) : List Char → Nat × Nat × Cursor
  | []      => (max widest c.column, breaks, c)
  | x :: xs =>
    if x == ' ' then firstLines widest breaks (c.passOver 1) xs
    else if x == '\n' then firstLines (max widest c.column) (breaks + 1) c.passLineEnd xs
    else (max widest c.column, breaks, c)

/-- Passes the indentation of a line, and empty lines in front of it, and counts their ends. -/
def indentation (indent breaks : Nat) (c : Cursor) : List Char → Nat × Cursor
  | []      => (breaks, c)
  | x :: xs =>
    if x == ' ' && c.column < indent then indentation indent breaks (c.passOver 1) xs
    else if x == '\n' then indentation indent (breaks + 1) c.passLineEnd xs
    else (breaks, c)

/-- The lines of a block text so far: the characters in reverse order, whether the last line begins
with a blank, whether it has a line end, and how many empty lines follow it. -/
structure BlockLines where
  read : List Char := []
  spaced : Bool := false
  broken : Bool := false
  breaks : Nat := 0

/-- What stands in front of the next line. -/
def BlockLines.gap (b : BlockLines) (folded spaced : Bool) : List Char :=
  if folded && b.broken && !b.spaced && !spaced then
    if b.breaks = 0 then [' '] else List.replicate b.breaks '\n'
  else List.replicate (b.breaks + if b.broken then 1 else 0) '\n'

/-- Takes the lines that are indented as far as the text is. -/
def blockLines (folded : Bool) (indent : Nat) (b : BlockLines) (c : Cursor) :
    Nat → BlockLines × Cursor
  | 0        => (b, c)
  | fuel + 1 =>
    if c.column != indent || c.rest.isEmpty || (indent = 0 && atMark '.' c.rest) then (b, c)
    else
      let spaced := atSpace c.rest
      let n := lineLength c.rest
      let read := (c.rest.take n).reverse ++ ((b.gap folded spaced).reverse ++ b.read)
      let c := c.passOver n
      if c.rest.isEmpty then (⟨read, spaced, false, 0⟩, c)
      else
        let c := c.passLineEnd
        let (breaks, c) := indentation indent 0 c c.rest
        blockLines folded indent ⟨read, spaced, true, breaks⟩ c fuel

/-- The whole text of lines, by the way in which it ends. -/
def BlockLines.text (b : BlockLines) (chomping : Chomping) (indent : Nat) (c : Cursor) :
    List Char :=
  let ended := if b.broken then ['\n'] else []
  let cutOff := if c.rest.isEmpty && max indent 1 ≤ c.column then ['\n'] else []
  b.read.reverse ++
    match chomping with
    | .strip => []
    | .clip  => ended ++ cutOff
    | .keep  => ended ++ cutOff ++ List.replicate b.breaks '\n'

/-- The text of which nothing but line ends is there. -/
def emptyText (chomping : Chomping) (sameLine : Bool) (breaks : Nat) : List Char :=
  match chomping with
  | .strip => []
  | .clip  => if sameLine then [] else ['\n']
  | .keep  => if sameLine then [] else List.replicate (max breaks 1) '\n'

/-- The block text behind its first character, in a collection of the column `around`. The fuel is
at least as much as there are characters. -/
def blockText? (folded : Bool) (around : Int) (start : Cursor) (fuel : Nat) :
    Option (List Char × Cursor) := do
  let c := start.pass 1
  let (chomping, width, length) ← blockHead? c.rest
  let (_, c) ← (c.pass length).passBlanks? true
  if !atLineEnd c.rest then none
  let c := if c.rest.isEmpty then c else c.passLineEnd
  if c.rest.head? == some '\t' then none
  let (indent, breaks, c) :=
    if width = 0 then
      let (widest, breaks, c) := firstLines 0 0 c c.rest
      (max widest (around + 1).toNat, breaks, c)
    else
      let indent := around.toNat + width
      let (breaks, c) := indentation indent 0 c c.rest
      (indent, breaks, c)
  if c.rest.isEmpty then some (emptyText chomping (c.line == start.line) breaks, c)
  else if c.column < indent && around < c.column then none
  else
    let (b, c) := blockLines folded indent { breaks := breaks } c (fuel + 1)
    some (b.text chomping indent c, c)

end Yaml

end ApiAssembly
