import ApiAssembly.Yaml.Node

/-!
# Yaml — Document — the one document of a text

A text holds one document: directives, a marker of its start, a node, and a marker of its end, of
which all may be left out. A second document is refused, but what stands behind the node without
beginning one is not looked at.

`document?` gives the node of the document; a text without one stands for the empty scalar.
-/

namespace ApiAssembly

namespace Yaml

/-- The lines of a text with a line feed at each end. -/
def normalLines : List Char → List Char
  | []                 => []
  | '\r' :: '\n' :: cs => '\n' :: normalLines cs
  | '\r' :: cs         => '\n' :: normalLines cs
  | c :: cs            => c :: normalLines cs

/-- The text behind a mark of its byte order. -/
def dropMark : List Char → List Char
  | c :: cs => if c.toNat == 0xFEFF then cs else c :: cs
  | []      => []

/-- The characters of a text that are read: those in front of the first null character. -/
def readable (text : String) : List Char :=
  (normalLines (dropMark text.toList)).takeWhile (·.toNat != 0)

namespace NodeSource

/-- Passes the directives in front of a document. Each replaces those before it, and a version is
given once. -/
def directives? (s : NodeSource) (versioned : Bool) : List Token → Option NodeSource
  | .version :: ts                   =>
    if versioned then none else directives? { s.pass with handles := [] } true ts
  | .tagDirective handle whole :: ts =>
    directives? { s.pass with handles := [(handle, whole)] } versioned ts
  | _                                => some s

/-- Passes the directives of a document and the marker of its start, which has to be there behind
directives. The result says whether there was one. -/
def start? (s : NodeSource) : Option (Bool × NodeSource) :=
  (s.directives? false s.tokens).bind fun after =>
    match after.tokens with
    | .documentStart :: _ => some (true, after.pass)
    | _                   =>
      if after.tokens.length < s.tokens.length then none else some (false, after)

/-- Whether a document ends in front of a token. -/
def endsDocument : Token → Bool
  | .version | .tagDirective _ _ | .documentStart | .documentEnd | .streamEnd => true
  | _                                                                         => false

/-- Whether a document begins here. Behind a marker of its start it may be empty. -/
def beginsDocument (s : NodeSource) : Bool :=
  match s.start? with
  | none             => false
  | some (marked, s) => (marked && s.next endsDocument) || s.beginsNode

/-- Passes the markers of ends. -/
def passEnds (s : NodeSource) : NodeSource :=
  { s with tokens := s.tokens.dropWhile fun t => match t with | .documentEnd => true | _ => false }

/-- Whether what stands behind the node of a document may stand there. -/
def endsWell (s : NodeSource) : Bool :=
  match s.tokens with
  | []                     => false
  | .documentEnd :: _      => !s.passEnds.beginsDocument
  | .documentStart :: _    => !s.beginsDocument
  | .version :: _          => false
  | .tagDirective _ _ :: _ => false
  | _                      => true

end NodeSource

/-- The node of the document in a text. -/
def document? (text : String) : Option Node :=
  let s := ({ tokens := tokens (readable text) } : NodeSource).passEnds
  match s.tokens with
  | [.streamEnd] => some .empty
  | _            => do
    let (marked, s) ← s.start?
    let (n, s) ← if marked && s.next NodeSource.endsDocument then some (.empty, s) else s.read? true
    if s.endsWell && s.fewAliases && n.depth ≤ Node.depthLimit then some n else none

end Yaml

end ApiAssembly
