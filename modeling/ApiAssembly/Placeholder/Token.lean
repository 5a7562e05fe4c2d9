import ApiAssembly.Text.Basic

/-!
# Placeholder — Token — the tokens of a text

A token is a dollar sign, an opening brace, a name, and the first closing brace after it; the name
holds at least one character and no closing brace. Tokens are taken from left to right and do not
overlap. `pieces` cuts a text into tokens and the characters between them, and `chars_pieces` says
that nothing is lost.
-/

namespace ApiAssembly

namespace Placeholder

/-- A piece of a text: a character that belongs to no token, or a token by its name. -/
inductive Piece where
  | char (c : Char)
  | token (name : List Char)
  deriving DecidableEq

/-- Where the scan stands: outside of tokens, after a dollar sign, or in a name, whose characters
are in reverse order. -/
inductive Scan where
  | outside
  | dollar
  | name (read : List Char)

/-- The text of a token. -/
def tokenChars (name : List Char) : List Char := '$' :: '{' :: name ++ ['}']

/-- The characters that a scan has read without a piece for them. -/
def Scan.held : Scan → List Char
  | .outside   => []
  | .dollar    => ['$']
  | .name read => '$' :: '{' :: read.reverse

/-- The pieces of the rest of a text. -/
def piecesFrom (s : Scan) : List Char → List Piece
  | []      => s.held.map .char
  | c :: cs =>
    match s with
    | .outside   =>
      if c = '$' then piecesFrom .dollar cs else .char c :: piecesFrom .outside cs
    | .dollar    =>
      if c = '{' then piecesFrom (.name []) cs
      else if c = '$' then .char '$' :: piecesFrom .dollar cs
      else .char '$' :: .char c :: piecesFrom .outside cs
    | .name read =>
      if c = '}' then
        if read.isEmpty then .char '$' :: .char '{' :: .char '}' :: piecesFrom .outside cs
        else .token read.reverse :: piecesFrom .outside cs
      else piecesFrom (.name (c :: read)) cs

/-- The pieces of a text. -/
def pieces (cs : List Char) : List Piece := piecesFrom .outside cs

/-- The text of a piece. -/
def Piece.chars : Piece → List Char
  | .char c     => [c]
  | .token name => tokenChars name

/-- The names of the tokens of a text. -/
def tokens (cs : List Char) : List String :=
  (pieces cs).filterMap fun
    | .char _     => none
    | .token name => some (String.ofList name)

/-- Puts a value in the place of each token that has one. -/
def substitute (value? : String → Option String) (cs : List Char) : List Char :=
  (pieces cs).flatMap fun
    | .char c     => [c]
    | .token name =>
      match value? (String.ofList name) with
      | some v => v.toList
      | none   => tokenChars name

/-- Whether a text has a dollar sign with an opening brace. -/
def opensToken (cs : List Char) : Bool := Text.occurs ['$', '{'] cs

theorem opensToken_of_no_dollar {cs : List Char} (h : '$' ∉ cs) : opensToken cs = false := by
  rw [← Bool.not_eq_true, opensToken, Text.occurs_iff]
  exact fun hin => h (hin.subset List.mem_cons_self)

theorem chars_of_plain (cs : List Char) : (cs.map Piece.char).flatMap Piece.chars = cs := by
  induction cs with
  | nil => rfl
  | cons c cs ih => simp [Piece.chars, ih]

theorem chars_piecesFrom (s : Scan) (cs : List Char) :
    (piecesFrom s cs).flatMap Piece.chars = s.held ++ cs := by
  induction cs generalizing s with
  | nil => rw [piecesFrom, chars_of_plain, List.append_nil]
  | cons c cs ih =>
    cases s with
    | outside =>
      by_cases h : c = '$' <;> simp [piecesFrom, Scan.held, Piece.chars, h, ih]
    | dollar =>
      by_cases h : c = '{'
      · simp [piecesFrom, Scan.held, h, ih]
      · by_cases h' : c = '$' <;> simp [piecesFrom, Scan.held, Piece.chars, h, h', ih]
    | name read =>
      by_cases h : c = '}'
      · cases read <;> simp [piecesFrom, Scan.held, Piece.chars, tokenChars, h, ih]
      · simp [piecesFrom, Scan.held, h, ih]

theorem chars_pieces (cs : List Char) : (pieces cs).flatMap Piece.chars = cs :=
  chars_piecesFrom .outside cs

end Placeholder

end ApiAssembly
