import ApiAssembly.Yaml.BlockText
import ApiAssembly.Yaml.Plain
import ApiAssembly.Yaml.Quoted
import ApiAssembly.Yaml.Token

/-!
# Yaml — TokenStream — how a text becomes tokens

Whether a token begins a key is known only at the colon behind it. So a stream marks the tokens that
may begin a key, holds them back until that is decided, and puts the tokens of the key in front of
them when the colon comes. The indentation opens and closes the collections in block style: a stack
holds the columns of those that are open. A column that is only *guarded*, behind a colon or a dash,
belongs to no collection; what stands there has to be to the right of the collection around it.

`Yaml.tokens` gives the tokens that a text yields before it goes wrong. Tokens that are held back
when that happens are lost.
-/

namespace ApiAssembly

namespace Yaml

/-- A place where a key may begin: the number of its token, and whether there has to be a key. -/
structure KeyMark where
  possible : Bool := false
  required : Bool := false
  number : Nat := 0
  line : Nat := 0
  column : Nat := 0
  index : Nat := 0

/-- A text in the middle of being read. Tokens are in reverse order. -/
structure TokenStream where
  cursor : Cursor
  /-- How many characters the whole text has. -/
  size : Nat
  tokens : List Token := []
  count : Nat := 0
  /-- How many tokens are not held back. -/
  taken : Nat := 0
  /-- The column of the innermost collection in block style, or the one that is guarded. -/
  indent : Int := -1
  /-- The columns around it, each with whether a collection ends with the one inside. -/
  indents : List (Int × Bool) := []
  /-- The marks of the open collections in flow style, and of the block around them. -/
  marks : List KeyMark := [{}]
  /-- Whether a key may begin here. -/
  keyAllowed : Bool := true
  /-- Where a colon needs no break behind it, after a key in quotes or brackets. -/
  adjacent : Nat := 0
  /-- Whether a mapping in flow style is open since the last pair without brackets. -/
  mapping : Bool := false
  /-- For the open sequences in flow style, whether a pair without brackets is open. -/
  pairs : List Bool := []
  /-- The column of the last token, where that is an anchor or a tag. -/
  property : Option Nat := none
  ended : Bool := false

namespace TokenStream

/-- How deep collections in flow style are nested. -/
def depth (s : TokenStream) : Nat := s.marks.length - 1

def inFlow (s : TokenStream) : Bool := 0 < s.depth

/-- How deep collections in flow style may be nested. -/
def depthLimit : Nat := 255

/-- The column that content of the innermost block may not stand to the left of. -/
def floor (s : TokenStream) : Nat := s.indent.toNat

def push (s : TokenStream) (t : Token) : TokenStream :=
  { s with tokens := t :: s.tokens, count := s.count + 1, property := none }

/-- Puts a token in front of the one with a number. -/
def insert (s : TokenStream) (number : Nat) (t : Token) : TokenStream :=
  { s with tokens := s.tokens.insertIdx (s.count - number) t, count := s.count + 1 }

def allowKey (s : TokenStream) (allowed : Bool) : TokenStream := { s with keyAllowed := allowed }

/-! ### Indentation -/

/-- Opens a collection in a column of its own; its token stands in front of the one with a number,
or comes next. -/
def openBlock (s : TokenStream) (column : Nat) (number : Option Nat) (t : Token) : TokenStream :=
  if s.inFlow then s
  else
    let s := match s.indents with
      | (around, false) :: rest =>
        if s.indent ≤ (column : Int) then { s with indent := around, indents := rest } else s
      | _                       => s
    if s.indent < (column : Int) then
      let s := { s with indents := (s.indent, true) :: s.indents, indent := column }
      match number with
      | some n => s.insert n t
      | none   => s.push t
    else s

/-- Closes the collections to the right of a column. -/
def closeBlocks (column : Int) (s : TokenStream) : List (Int × Bool) → TokenStream
  | []                    => s
  | (around, ends) :: rest =>
    if s.indent ≤ column then s
    else
      let s := { s with indent := around, indents := rest }
      closeBlocks column (if ends then s.push .blockEnd else s) rest

/-- Closes the collections to the right of a column, in block style. -/
def unroll (s : TokenStream) (column : Int) : TokenStream :=
  if s.inFlow then s else closeBlocks column s s.indents

/-- Guards the columns to the right of the innermost collection. -/
def guardColumn (s : TokenStream) : TokenStream :=
  match s.indents with
  | (_, true) :: _ =>
    if s.inFlow then s
    else { s with indents := (s.indent, false) :: s.indents, indent := s.indent + 1 }
  | _              => s

/-- Guards no column any more. -/
def unguard (s : TokenStream) : TokenStream :=
  match s.indents with
  | (around, false) :: rest => { s with indent := around, indents := rest }
  | _                       => s

/-! ### Marks of keys -/

/-- Changes the innermost mark. -/
def mapMark (s : TokenStream) (f : KeyMark → KeyMark) : TokenStream :=
  match s.marks with
  | m :: ms => { s with marks := f m :: ms }
  | []      => s

def mark (s : TokenStream) : KeyMark := s.marks.headD {}

/-- How many characters a key in block style may have. -/
def keyLimit : Nat := 1024

/-- Gives up the marks that no key can begin at any more: outside of brackets a key is on one line.
There is no stream where a key is missing. -/
def stale? (s : TokenStream) : Option TokenStream :=
  let late (m : KeyMark) : Bool :=
    m.possible && !s.inFlow &&
      (m.line < s.cursor.line || m.index + keyLimit < s.cursor.index)
  if s.marks.any fun m => late m && m.required then none
  else
    let given (m : KeyMark) : KeyMark := { m with possible := m.possible && !late m }
    some { s with marks := s.marks.map given }

/-- Marks the next token as one that may begin a key. -/
def markKey (s : TokenStream) : TokenStream :=
  if s.keyAllowed then
    s.mapMark fun _ =>
      { possible := true
        required := !s.inFlow && s.indent == s.cursor.column && s.indents.head?.any (·.2)
        number := s.count
        line := s.cursor.line
        column := s.cursor.column
        index := s.cursor.index }
  else s

/-- Gives up the innermost mark. -/
def unmark? (s : TokenStream) : Option TokenStream :=
  if s.mark.possible && s.mark.required then none
  else some (s.mapMark fun m => { m with possible := false })

/-! ### Blanks -/

/-- Moves to the next content; where a line ends, a key may begin. -/
def toContent? (s : TokenStream) : Option TokenStream :=
  (s.cursor.toContent? (if s.indents.isEmpty then none else some s.floor)).map fun (c, ended) =>
    { s with cursor := c, keyAllowed := s.keyAllowed || (ended && !s.inFlow) }

/-- Passes the blanks of the line and a comment after them. -/
def passBlanks? (s : TokenStream) (tabs : Bool) : Option (Blanks × TokenStream) :=
  (s.cursor.passBlanks? tabs).map fun (b, c) => (b, { s with cursor := c })

/-! ### Collections in flow style -/

/-- Ends the pair without brackets that is open in the innermost sequence. -/
def endPair (s : TokenStream) : TokenStream :=
  match s.pairs with
  | true :: rest => { s with mapping := false, pairs := false :: rest }.push .flowMappingEnd
  | _            => s

def openFlow? (s : TokenStream) (t : Token) (isMapping : Bool) : Option TokenStream :=
  let s := s.markKey.guardColumn
  if depthLimit ≤ s.depth then none
  else
    let s := { s with marks := {} :: s.marks, keyAllowed := true, cursor := s.cursor.pass 1 }
    let s := if isMapping then { s with mapping := true } else { s with pairs := false :: s.pairs }
    (s.passBlanks? true).map fun (_, s) => s.push t

/-- Leaves a collection in flow style; outside of all there is none to leave. -/
def leaveFlow (s : TokenStream) : TokenStream :=
  if s.inFlow then { s with marks := s.marks.drop 1 } else s

def closeFlow? (s : TokenStream) (t : Token) (isMapping : Bool) : Option TokenStream := do
  let s ← s.unmark?
  let s := s.leaveFlow.allowKey false
  let s := if isMapping then s else { s.endPair with pairs := s.pairs.drop 1 }
  let (_, s) ← { s with cursor := s.cursor.pass 1 }.passBlanks? true
  let s := if s.inFlow then { s with adjacent := s.cursor.index } else s
  some (s.push t)

def comma? (s : TokenStream) : Option TokenStream := do
  let s ← s.unmark?
  let s := (s.allowKey true).endPair
  let (_, s) ← { s with cursor := s.cursor.pass 1 }.passBlanks? true
  some (s.push .comma)

/-! ### Entries, keys and values -/

/-- Whether a dash stands here with a break behind it. -/
def atDash : List Char → Bool
  | '-' :: cs => atBreak cs
  | _         => false

/-- Whether an anchor or a tag without content stands in front of the entries of a block. -/
def strayProperty (s : TokenStream) : Bool :=
  s.taken < s.count && s.property == some 0 && s.cursor.column == 0 && -1 < s.indent

def entry? (s : TokenStream) : Option TokenStream := do
  if s.inFlow || !s.keyAllowed || s.strayProperty then none
  let s := { s with cursor := s.cursor.pass 1 }.openBlock s.cursor.column none .blockSequence
  let (b, s) ← s.passBlanks? true
  if b.tab && atDash s.cursor.rest then none
  let (_, s) ← s.passBlanks? false
  let s :=
    if s.cursor.rest.head? == some '\n' || atFlowMark s.cursor.rest then s.guardColumn else s
  let s ← s.unmark?
  some ((s.allowKey true).push .entry)

/-- Passes the spaces, line ends and comments behind a question mark; `passed` says whether there is
a space or a line end. -/
def passKeySpaces? (c : Cursor) (passed comment : Bool) : List Char → Option Cursor
  | []      => if passed then some c else none
  | x :: xs =>
    if x == '\n' then passKeySpaces? c.passLineEnd true false xs
    else if comment || x == '#' then passKeySpaces? (c.passOver 1) passed true xs
    else if x == ' ' then passKeySpaces? (c.passOver 1) true false xs
    else if passed && x != '\t' then some c
    else none

def key? (s : TokenStream) : Option TokenStream := do
  if !s.inFlow && !s.keyAllowed then none
  let s :=
    if s.inFlow then { s with mapping := true }
    else s.openBlock s.cursor.column none .blockMapping
  let s ← s.unmark?
  let start := s.cursor.pass 1
  let c ← passKeySpaces? start false false start.rest
  some ({ s with cursor := c, keyAllowed := !s.inFlow }.push .key)

/-- Whether a tab behind a colon stands directly in front of a word. -/
def tabBeforeWord (b : Blanks) (cs : List Char) : Bool :=
  b.tab && !b.space && cs.head?.any isHandleChar

/-- Passes a colon. -/
def passColon? (s : TokenStream) : Option TokenStream :=
  let s := { s with cursor := s.cursor.pass 1 }
  if s.cursor.rest.head? == some '\t' then
    (s.passBlanks? true).bind fun (b, s) =>
      if tabBeforeWord b s.cursor.rest then none else some s
  else some s

/-- A colon behind the key at the innermost mark. -/
def valueOfMark? (s : TokenStream) (isPair : Bool) (line : Nat) : Option TokenStream :=
  let m := s.mark
  if isPair && m.line < line then none
  else
    let s := s.insert m.number .key
    let s := if isPair then s.insert m.number .flowMapping else s
    let s := (s.openBlock m.column (some m.number) .blockMapping).guardColumn
    some ((s.mapMark fun m => { m with possible := false }).allowKey false)

/-- A colon that no key on the same line stands in front of. -/
def valueAlone? (s : TokenStream) (isPair : Bool) (column : Nat) : Option TokenStream :=
  if !s.inFlow && !s.keyAllowed then none
  else
    let s := if isPair then s.push .flowMapping else s
    let s := (s.openBlock column none .blockMapping).guardColumn
    some (s.allowKey !s.inFlow)

def value? (s : TokenStream) : Option TokenStream := do
  let isPair := !s.pairs.isEmpty && !s.mapping
  let start := s.cursor
  let s := if isPair then { s with pairs := true :: s.pairs.drop 1 } else s
  let s ← s.passColon?
  let s ←
    if s.mark.possible then s.valueOfMark? isPair start.line
    else s.valueAlone? isPair start.column
  some (s.push .value)

/-- A colon inside of brackets without a break behind it: no bracket follows it, unless the key is
one that needs no break. -/
def flowValue? (s : TokenStream) : Option TokenStream :=
  let next := (s.cursor.rest.drop 1).head?
  if s.cursor.index != s.adjacent && (next == some '[' || next == some '{') then none else s.value?

/-! ### Names, tags and texts -/

/-- An anchor, an alias or a tag. -/
def named? (s : TokenStream) (read : Cursor → Option (Token × Cursor)) : Option TokenStream :=
  let column := s.cursor.column
  let s := s.markKey.allowKey false
  (read s.cursor).map fun (t, c) =>
    let s := { s with cursor := c }.push t
    match t with
    | .alias _ => s
    | _        => { s with property := some column }

def plainText? (s : TokenStream) : Option TokenStream :=
  let s := (s.markKey.allowKey false).unguard
  (plain? s.inFlow (s.indent + 1).toNat s.cursor s.size).map fun (text, c) =>
    { s with cursor := c, keyAllowed := c.fresh }.push (.scalar .plain text)

/-- Whether something may follow a quoted text that began on a line: the end of the line, the colon
of a key, or a flow mark. -/
def mayFollowQuoted (s : TokenStream) (line : Nat) : Bool :=
  match s.cursor.rest with
  | []     => true
  | c :: _ =>
    c == '\n' || (c == ':' && (s.inFlow || s.cursor.line == line)) ||
      (s.inFlow && (c == ',' || c == ']' || c == '}'))

def quotedText? (s : TokenStream) (quote : Char) : Option TokenStream := do
  let line := s.cursor.line
  let s := s.markKey.allowKey false
  let (text, c) ← quoted? quote s.floor s.cursor s.size
  let (_, s) ← { s with cursor := c }.passBlanks? true
  if !s.mayFollowQuoted line then none
  let s ← s.toContent?
  some ({ s with adjacent := s.cursor.index }.push (.scalar .quoted text))

def blockScalar? (s : TokenStream) (folded : Bool) : Option TokenStream :=
  let s := (s.markKey.allowKey true).unguard
  (blockText? folded s.indent s.cursor s.size).map fun (text, c) =>
    { s with cursor := c }.push (.scalar .block text)

/-! ### Documents -/

/-- The end of the text; no key is missing there. -/
def streamEnd? (s : TokenStream) : Option TokenStream :=
  if s.marks.any fun m => m.possible && m.required then none
  else
    let marks := s.marks.map fun m => ({ m with possible := false } : KeyMark)
    let s := (({ s with marks := marks } : TokenStream).unroll (-1)).allowKey false
    some { s.push .streamEnd with ended := true }

/-- What stands outside of all collections: these are closed first. -/
def outside? (s : TokenStream) : Option TokenStream :=
  (s.unroll (-1)).unmark?.map fun s => s.allowKey false

def directiveLine? (s : TokenStream) : Option TokenStream := do
  let s ← s.outside?
  let (t, c) ← directive? s.cursor
  some ({ s with cursor := c }.push t)

def documentStart? (s : TokenStream) : Option TokenStream :=
  s.outside?.map fun s => push { s with cursor := s.cursor.pass 3 } .documentStart

/-- The mark at the end of a document, which nothing follows on its line. -/
def documentEnd? (s : TokenStream) : Option TokenStream := do
  let s ← s.outside?
  let s := { s with cursor := s.cursor.pass 3 }.push .documentEnd
  let (_, s) ← s.passBlanks? true
  if !atLineEnd s.cursor.rest then none
  some s

/-! ### The tokens of a text -/

/-- What the character at the cursor begins. -/
def content? (s : TokenStream) (c : Char) (cs : List Char) : Option TokenStream :=
  if c == '[' then s.openFlow? .flowSequence false
  else if c == '{' then s.openFlow? .flowMapping true
  else if c == ']' then s.closeFlow? .flowSequenceEnd false
  else if c == '}' then s.closeFlow? .flowMappingEnd true
  else if c == ',' then s.comma?
  else if c == '-' && atBreak cs then s.entry?
  else if c == '?' && atBreak cs then s.key?
  else if c == ':' && atBreak cs then s.value?
  else if c == ':' && s.inFlow && (atFlowMark cs || s.cursor.index == s.adjacent) then s.flowValue?
  else if c == '*' then s.named? fun c => (name? c).map fun (n, c) => (.alias n, c)
  else if c == '&' then s.named? fun c => (name? c).map fun (n, c) => (.anchor n, c)
  else if c == '!' then s.named? (tag? s.inFlow)
  else if c == '|' && !s.inFlow then s.blockScalar? false
  else if c == '>' && !s.inFlow then s.blockScalar? true
  else if c == '\x27' || c == '"' then s.quotedText? c
  else if c == '%' || c == '@' || c == '\x60' then none
  else s.plainText?

/-- Reads on to the next token at least. -/
def step? (s : TokenStream) : Option TokenStream := do
  let s ← s.toContent?
  let s ← s.stale?
  let s := s.unroll s.cursor.column
  match s.cursor.rest with
  | []      => s.streamEnd?
  | c :: cs =>
    if s.cursor.column == 0 && c == '%' then s.directiveLine?
    else if s.cursor.column == 0 && atMark '-' (c :: cs) then s.documentStart?
    else if s.cursor.column == 0 && atMark '.' (c :: cs) then s.documentEnd?
    else if s.cursor.column < s.indent then none
    else s.content? c cs

/-- Whether the next token is held back. -/
def holdsBack (s : TokenStream) : Bool :=
  s.count ≤ s.taken || s.marks.any fun m => m.possible && m.number == s.taken

/-- The tokens that are not held back, in order. -/
def yielded (s : TokenStream) : List Token := (s.tokens.drop (s.count - s.taken)).reverse

/-- Reads on to the end, or to the place where the text goes wrong. -/
def run (s : TokenStream) : Nat → List Token
  | 0        => s.yielded
  | fuel + 1 =>
    if s.ended then { s with taken := s.count }.yielded
    else
      let next := if s.taken < s.count then s.stale? else some s
      match next with
      | none   => s.yielded
      | some s =>
        if !s.holdsBack then { s with taken := s.taken + 1 }.run fuel
        else match s.step? with
          | some s => s.run fuel
          | none   => s.yielded

end TokenStream

/-- The tokens of a text; the last one is the end of the text, unless the text goes wrong. -/
def tokens (cs : List Char) : List Token :=
  let size := cs.length
  ({ cursor := { rest := cs }, size } : TokenStream).run (8 * size + 32)

end Yaml

end ApiAssembly
