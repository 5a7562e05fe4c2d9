import ApiAssembly.Json.Token
import ApiAssembly.Yaml.Cursor

/-!
# Yaml — Quoted — texts between quotes

Between apostrophes only a doubled apostrophe stands for something else; between double quotes a
backslash begins an escape. Line ends are folded, and one behind a backslash joins its lines. No
line of the text begins to the left of the column `floor`, and none is a document marker.
-/

namespace ApiAssembly

namespace Yaml

/-- The character that a letter after a backslash stands for. -/
def escaped? (c : Char) : Option Char :=
  (([('0', 0), ('a', 7), ('b', 8), ('t', 9), ('n', 10), ('v', 11), ('f', 12), ('r', 13), ('e', 27),
    (' ', 32), ('"', 34), ('/', 47), ('\\', 92), ('N', 0x85), ('_', 0xA0), ('L', 0x2028),
    ('P', 0x2029), ('\t', 9)] : List (Char × Nat)).find? fun p => p.1 == c).map
    fun p => Char.ofNat p.2

/-- How many hexadecimal digits follow a letter after a backslash. -/
def codeLength? (c : Char) : Option Nat :=
  if c == 'x' then some 2 else if c == 'u' then some 4 else if c == 'U' then some 8 else none

/-- The number that hexadecimal digits write. -/
def hexNumber? (cs : List Char) : Option Nat :=
  cs.foldl (fun v c => v.bind fun v => (ApiAssembly.Token.hexValue? c).map (v * 16 + ·)) (some 0)

/-- The character of an escape, from the characters after its backslash, and how many they are. -/
def escape? : List Char → Option (Char × Nat)
  | []      => none
  | c :: cs =>
    match codeLength? c with
    | none   => (escaped? c).map fun e => (e, 1)
    | some n =>
      let digits := cs.take n
      if digits.length < n then none
      else match hexNumber? digits with
        | none   => none
        | some v => if v.isValidChar then some (Char.ofNat v, n + 1) else none

/-- Takes characters up to a blank, a line end or the closing quote, in reverse order; `true` says
that a line end was joined. -/
def quotedRun? (quote : Char) (read : List Char) (c : Cursor) :
    Nat → Option (List Char × Bool × Cursor)
  | 0        => none
  | fuel + 1 =>
    match c.rest with
    | []      => some (read, false, c)
    | x :: xs =>
      if isSpace x || x == '\n' then some (read, false, c)
      else if x == quote then
        if quote == '\x27' && xs.head? == some '\x27' then
          quotedRun? quote ('\x27' :: read) (c.pass 2) fuel
        else some (read, false, c)
      else if x == '\\' && quote == '"' then
        if xs.head? == some '\n' then some (read, true, (c.pass 1).passLineEnd)
        else match escape? xs with
          | some (e, n) => quotedRun? quote (e :: read) (c.pass (n + 1)) fuel
          | none        => none
      else quotedRun? quote (x :: read) (c.pass 1) fuel

/-- What was passed since the last character between quotes: blanks, in reverse order, or line
ends; a joined line end is none of them. -/
structure QuotedGap where
  blanks : List Char := []
  leading : Bool := false
  broken : Bool := false
  breaks : Nat := 0

/-- What stands for a gap in the text. -/
def QuotedGap.chars (g : QuotedGap) : List Char :=
  if !g.leading then g.blanks.reverse
  else if g.broken && g.breaks = 0 then [' ']
  else List.replicate g.breaks '\n'

/-- Passes the blanks and line ends between quotes; no tab is part of an indentation. -/
def quotedGap? (floor : Nat) (g : QuotedGap) (c : Cursor) : List Char → Option (QuotedGap × Cursor)
  | []      => some (g, c)
  | x :: xs =>
    if x == '\n' then
      let g : QuotedGap :=
        if g.leading then { g with breaks := g.breaks + 1 }
        else { g with blanks := [], leading := true, broken := true }
      quotedGap? floor g c.passLineEnd xs
    else if !isSpace x then some (g, c)
    else if !g.leading then quotedGap? floor { g with blanks := x :: g.blanks } (c.passOver 1) xs
    else if x == '\t' && c.column < floor then none
    else quotedGap? floor g (c.passOver 1) xs

/-- The rest of a quoted text, whose characters so far are in reverse order; no run of characters
takes more than `steps`. -/
def quotedFrom? (quote : Char) (floor steps : Nat) (read : List Char) (c : Cursor) :
    Nat → Option (List Char × Cursor)
  | 0        => none
  | fuel + 1 =>
    if c.rest.isEmpty || c.column < floor || (c.column == 0 && atDocumentMark c.rest) then none
    else match quotedRun? quote read c steps with
      | none                   => none
      | some (read, joined, c) =>
        if c.rest.head? == some quote then some (read.reverse, c.pass 1)
        else match quotedGap? floor { leading := joined } c c.rest with
          | none        => none
          | some (g, c) => quotedFrom? quote floor steps (g.chars.reverse ++ read) c fuel

/-- The text behind an opening quote, and the cursor after its closing one. The fuel is at least as
much as there are characters. -/
def quoted? (quote : Char) (floor : Nat) (c : Cursor) (fuel : Nat) : Option (List Char × Cursor) :=
  quotedFrom? quote floor (fuel + 1) [] (c.pass 1) (fuel + 1)

end Yaml

end ApiAssembly
