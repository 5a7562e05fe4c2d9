import ApiAssembly.Yaml.TokenStream

/-!
# Yaml — Node — the tree that tokens write

A node is a scalar, a sequence or a mapping. A `NodeSource` holds the tokens that are left, and what
the directives and the anchors before them have named. A node may have a tag and an anchor in front
of it; an alias stands for the node of the last anchor of its name, once that node is finished.

`NodeSource.node?` reads one node. Where the tokens leave a node out, the empty scalar is read.
-/

namespace ApiAssembly

namespace Yaml

/-- A node of a YAML text. -/
inductive Node where
  | scalar (plain : Bool) (tag : Option String) (text : List Char)
  | sequence (items : List Node)
  | mapping (entries : List (Node × Node))

namespace Node

/-- The node that stands where none is written. -/
def empty : Node := .scalar true none []

mutual

/-- The number of scalars, and of ends of sequences and mappings. -/
def size : Node → Nat
  | .scalar _ _ _    => 1
  | .sequence items  => sizeItems items + 2
  | .mapping entries => sizeEntries entries + 2

/-- The size of all items. -/
def sizeItems : List Node → Nat
  | []      => 0
  | x :: xs => x.size + sizeItems xs

/-- The size of all keys and values. -/
def sizeEntries : List (Node × Node) → Nat
  | []           => 0
  | (k, x) :: es => k.size + x.size + sizeEntries es

end

mutual

/-- How deep sequences and mappings are nested. -/
def depth : Node → Nat
  | .scalar _ _ _    => 0
  | .sequence items  => depthItems items + 1
  | .mapping entries => depthEntries entries + 1

/-- The depth of the deepest item. -/
def depthItems : List Node → Nat
  | []      => 0
  | x :: xs => max x.depth (depthItems xs)

/-- The depth of the deepest key or value. -/
def depthEntries : List (Node × Node) → Nat
  | []           => 0
  | (k, x) :: es => max (max k.depth x.depth) (depthEntries es)

end

/-- How deep the collections of a text may be nested. -/
def depthLimit : Nat := 2000

end Node

/-- The anchor in front of a node, by its number, and its tag. -/
structure Properties where
  anchor : Option Nat := none
  tag : Option String := none

/-- The scalar behind its properties. Behind an anchor, quotes without text are as good as none. -/
def Properties.scalar (p : Properties) (style : Style) (text : List Char) : Node :=
  .scalar (style == .plain || (style == .quoted && text.isEmpty && p.anchor.isSome)) p.tag text

/-- The tokens that are left, what the handles of tags stand for, and the anchors so far, the latest
first, each with its node once that is finished. -/
structure NodeSource where
  tokens : List Token
  handles : List (String × String) := []
  anchors : List (String × Option Node) := []
  /-- How many aliases there were so far, and how much they stand for. -/
  aliases : Nat := 0
  replayed : Nat := 0

namespace NodeSource

/-- Passes a token. -/
def pass (s : NodeSource) : NodeSource := { s with tokens := s.tokens.drop 1 }

/-- Whether the next token is one of a class. -/
def next (s : NodeSource) (p : Token → Bool) : Bool := s.tokens.head?.any p

/-! ### Tags, anchors and aliases -/

/-- The whole tag that a handle and a suffix stand for. -/
def tag? (s : NodeSource) (handle suffix : String) : Option String :=
  match Keyed.get? s.handles handle with
  | some whole => some (whole ++ suffix)
  | none       =>
    if handle == "!!" then some ("tag:yaml.org,2002:" ++ suffix)
    else if isMarkedHandle handle.toList then none
    else some (handle ++ suffix)

/-- Takes the tag that comes next. -/
def takeTag? (s : NodeSource) : Option (Option String × NodeSource) :=
  match s.tokens with
  | .tag handle suffix :: _ => (s.tag? handle suffix).map fun t => (some t, s.pass)
  | _                       => some (none, s)

/-- Takes the anchor that comes next. -/
def takeAnchor (s : NodeSource) : Option Nat × NodeSource :=
  match s.tokens with
  | .anchor name :: _ =>
    (some s.anchors.length, { s.pass with anchors := (name, none) :: s.anchors })
  | _                 => (none, s)

/-- The anchor and the tag in front of a node, in either order. -/
def properties? (s : NodeSource) : Option (Properties × NodeSource) :=
  match s.takeAnchor with
  | (some n, s) => s.takeTag?.map fun (tag, s) => (⟨some n, tag⟩, s)
  | (none,   s) =>
    s.takeTag?.map fun (tag, s) =>
      if tag.isSome then
        let (anchor, s) := s.takeAnchor
        (⟨anchor, tag⟩, s)
      else ({}, s)

/-- A node behind its properties, which is finished. -/
def finish (s : NodeSource) (p : Properties) (n : Node) : Node × NodeSource :=
  match p.anchor with
  | none        => (n, s)
  | some number =>
    (n, { s with
      anchors := s.anchors.modify (s.anchors.length - 1 - number) fun a => (a.1, some n) })

/-- How much all aliases of a text may stand for. -/
def replayLimit : Nat := 1000000

/-- The node that an alias stands for. -/
def replay? (s : NodeSource) (name : String) : Option (Node × NodeSource) :=
  match Keyed.get? s.anchors name with
  | some (some n) =>
    let replayed := s.replayed + n.size
    if replayed ≤ replayLimit then some (n, { s.pass with aliases := s.aliases + 1, replayed })
    else none
  | _             => none

/-- Whether there are not too many aliases: fewer than a hundred, or ten for each anchor. -/
def fewAliases (s : NodeSource) : Bool := s.aliases < 100 || s.aliases ≤ 10 * s.anchors.length

/-! ### Tokens in front of which a node is left out -/

def endsItem : Token → Bool
  | .entry | .blockEnd => true
  | _                  => false

def endsKey : Token → Bool
  | .key | .value | .blockEnd => true
  | _                         => false

def endsBareItem (t : Token) : Bool := endsItem t || endsKey t

def endsFlowItem : Token → Bool
  | .comma | .flowSequenceEnd => true
  | _                         => false

def endsPairKey : Token → Bool
  | .value | .comma | .flowSequenceEnd => true
  | _                                  => false

def endsFlowKey : Token → Bool
  | .value | .comma | .flowMappingEnd => true
  | _                                 => false

def endsFlowValue : Token → Bool
  | .comma | .flowMappingEnd => true
  | _                        => false

def isFlowSequenceEnd : Token → Bool
  | .flowSequenceEnd => true
  | _                => false

def isFlowMappingEnd : Token → Bool
  | .flowMappingEnd => true
  | _               => false

/-- Passes the comma between two entries; the first has none in front of it. -/
def passComma? (s : NodeSource) (first : Bool) : Option NodeSource :=
  match s.tokens with
  | .comma :: _ => if first then some s else some s.pass
  | _           => if first then some s else none

/-! ### Nodes -/

mutual

/-- The next node. It may be a collection in block style where `block` says so, and a sequence
without a column of its own where `bare` does. -/
def node? (block bare : Bool) (s : NodeSource) : Nat → Option (Node × NodeSource)
  | 0        => none
  | fuel + 1 =>
    match s.tokens with
    | .alias name :: _ => s.replay? name
    | _                => do
      let (p, s) ← s.properties?
      let (n, s) ← content? block bare p s fuel
      some (s.finish p n)

/-- The node behind its properties. -/
def content? (block bare : Bool) (p : Properties) (s : NodeSource) :
    Nat → Option (Node × NodeSource)
  | 0        => none
  | fuel + 1 =>
    let sequence (r : List Node × NodeSource) : Node × NodeSource := (.sequence r.1, r.2)
    let mapping (r : List (Node × Node) × NodeSource) : Node × NodeSource := (.mapping r.1, r.2)
    match s.tokens with
    | []                      => none
    | .scalar style text :: _ => some (p.scalar style text, s.pass)
    | .flowSequence :: _      => (flowItems? true s.pass fuel).map sequence
    | .flowMapping :: _       => (flowEntries? true s.pass fuel).map mapping
    | t :: _                  =>
      match t, block, bare with
      | .entry,         _,    true => (bareItems? s fuel).map sequence
      | .blockSequence, true, _    => (items? s.pass fuel).map sequence
      | .blockMapping,  true, _    => (entries? s.pass fuel).map mapping
      | _,              _,    _    =>
        if p.anchor.isSome || p.tag.isSome then some (.scalar true p.tag [], s) else none

/-- The next node, or the empty one in front of some tokens. -/
def nodeBefore? (ends : Token → Bool) (block bare : Bool) (s : NodeSource) :
    Nat → Option (Node × NodeSource)
  | 0        => none
  | fuel + 1 => if s.next ends then some (.empty, s) else node? block bare s fuel

/-- The items of a sequence with a column of its own. -/
def items? (s : NodeSource) : Nat → Option (List Node × NodeSource)
  | 0        => none
  | fuel + 1 =>
    match s.tokens with
    | .entry :: _    => do
      let (x, s) ← nodeBefore? endsItem true false s.pass fuel
      let (xs, s) ← items? s fuel
      some (x :: xs, s)
    | .blockEnd :: _ => some ([], s.pass)
    | _              => none

/-- The items of a sequence in the column of the mapping around it. -/
def bareItems? (s : NodeSource) : Nat → Option (List Node × NodeSource)
  | 0        => none
  | fuel + 1 =>
    match s.tokens with
    | []          => none
    | .entry :: _ => do
      let (x, s) ← nodeBefore? endsBareItem true false s.pass fuel
      let (xs, s) ← bareItems? s fuel
      some (x :: xs, s)
    | _           => some ([], s)

/-- The entries of a mapping in block style. -/
def entries? (s : NodeSource) : Nat → Option (List (Node × Node) × NodeSource)
  | 0        => none
  | fuel + 1 =>
    match s.tokens with
    | .blockEnd :: _ => some ([], s.pass)
    | t :: _         => do
      let (k, s) ←
        match t with
        | .key   => nodeBefore? endsKey true true s.pass fuel
        | .value => some (.empty, s)
        | _      => none
      let (x, s) ← value? endsKey true s fuel
      let (es, s) ← entries? s fuel
      some ((k, x) :: es, s)
    | []             => none

/-- The value behind a key. -/
def value? (ends : Token → Bool) (block : Bool) (s : NodeSource) :
    Nat → Option (Node × NodeSource)
  | 0        => none
  | fuel + 1 =>
    match s.tokens with
    | .value :: _ => nodeBefore? ends block block s.pass fuel
    | _           => some (.empty, s)

/-- The items of a sequence in flow style; one may be a pair that a question mark begins. -/
def flowItems? (first : Bool) (s : NodeSource) : Nat → Option (List Node × NodeSource)
  | 0        => none
  | fuel + 1 =>
    if s.next isFlowSequenceEnd then some ([], s.pass)
    else do
      let s ← s.passComma? first
      if s.next isFlowSequenceEnd then return ([], s.pass)
      let (x, s) ←
        match s.tokens with
        | .key :: _ => flowPair? s.pass fuel
        | _         => node? false false s fuel
      let (xs, s) ← flowItems? false s fuel
      return (x :: xs, s)

/-- The pair behind a question mark in a sequence. A mark in the place of its key is passed. -/
def flowPair? (s : NodeSource) : Nat → Option (Node × NodeSource)
  | 0        => none
  | fuel + 1 => do
    let (k, s) ←
      if s.next endsPairKey then some (Node.empty, s.pass) else node? false false s fuel
    let (x, s) ← value? endsFlowItem false s fuel
    some (.mapping [(k, x)], s)

/-- The entries of a mapping in flow style; one without a colon is a key of the empty scalar. -/
def flowEntries? (first : Bool) (s : NodeSource) : Nat → Option (List (Node × Node) × NodeSource)
  | 0        => none
  | fuel + 1 =>
    if s.next isFlowMappingEnd then some ([], s.pass)
    else do
      let s ← s.passComma? first
      if s.next isFlowMappingEnd then return ([], s.pass)
      let (k, x, s) ←
        match s.tokens with
        | .key :: _   => do
          let (k, s) ← nodeBefore? endsFlowKey false false s.pass fuel
          let (x, s) ← value? endsFlowValue false s fuel
          some (k, x, s)
        | .value :: _ => do
          let (x, s) ← value? endsFlowValue false s fuel
          some (.empty, x, s)
        | _           => do
          let (k, s) ← node? false false s fuel
          some (k, .empty, s)
      let (es, s) ← flowEntries? false s fuel
      return ((k, x) :: es, s)

end

/-- The next node. -/
def read? (s : NodeSource) (block : Bool) : Option (Node × NodeSource) :=
  s.node? block false (4 * s.tokens.length + 8)

/-- Whether a node begins here. An alias begins none: nothing has a name yet. -/
def beginsNode (s : NodeSource) : Bool :=
  match s.properties? with
  | none        => false
  | some (p, s) =>
    match s.tokens with
    | []     => false
    | t :: _ =>
      match t with
      | .scalar _ _ | .flowSequence | .flowMapping | .blockSequence | .blockMapping => true
      | _ => p.anchor.isSome || p.tag.isSome

end NodeSource

end Yaml

end ApiAssembly
