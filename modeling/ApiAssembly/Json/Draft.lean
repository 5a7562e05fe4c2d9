import ApiAssembly.Json.Token

/-!
# Json — Draft — a text as far as it can be read

A draft is the tree of a JSON text in the order of the text, with repeated keys kept. A text that
breaks off, or goes wrong somewhere, still has one: the tree of all that stands before that place,
which ends in `broken` or in a record that is `cut`. So a reader that walks a draft in order meets
a mismatch in front of the fault before it meets the fault. A numeral or a string that stands for
nothing is a fault only for a reader that asks for it; one who passes over it goes on.

`Draft.read` builds the draft from tokens with a stack of open lists and records. Lists and records
nested more than 127 deep are marked `beyond`: they can be passed over but not read.

`Json.read?` is the reader of whole texts: one value, with nothing but blanks around it.
-/

namespace ApiAssembly

/-- How a record ends after its fields. -/
inductive Ending where
  | closed
  /-- The text breaks off or goes wrong. -/
  | cut
  /-- A key stands for nothing; the rest can be passed over but not read. -/
  | keyless
  deriving DecidableEq

/-- Whether the end of a record cannot be read. -/
def Ending.stops (e : Ending) : Bool := e != .closed

/-- The tree of a JSON text as far as it can be read. -/
inductive Draft where
  | null
  | bool (flag : Bool)
  | num (number : Number)
  | str (text : String)
  /-- A numeral or a string that stands for nothing. -/
  | valueless
  | list (items : List Draft)
  /-- The fields in order, and what comes after them. -/
  | record (fields : List (String × Draft)) (ending : Ending)
  /-- A list or a record that is nested too deep to be read. -/
  | beyond (inner : Draft)
  /-- The text goes wrong where a value should stand. -/
  | broken

namespace Draft

/-- How deep lists and records may be nested. -/
def nestingLimit : Nat := 127

/-- A list or record that is still open: what it holds so far, in reverse order, and for a record
the key whose value comes next. Behind a key that stands for nothing a record is passed over. -/
inductive Frame where
  | list (items : List Draft)
  | record (fields : List (String × Draft)) (key : Option String)
  | passing (fields : List (String × Draft))

/-- What may come next. -/
inductive Await where
  | value | firstItem | nextItem | firstKey | key | colon | nextKey

/-- What a token does to the open lists and records. -/
inductive Build where
  | more (stack : List Frame) (await : Await)
  | done (d : Draft)
  | bad

/-- A closed list or record below the given open ones. -/
def closed (d : Draft) (around : List Frame) : Draft :=
  if around.length < nestingLimit then d else .beyond d

/-- Puts a value where it was awaited. -/
def place (d : Draft) : List Frame → Build
  | []                             => .done d
  | .list items :: rest            => .more (.list (d :: items) :: rest) .nextItem
  | .record fields (some k) :: rest => .more (.record ((k, d) :: fields) none :: rest) .nextKey
  | .passing fields :: rest        => .more (.passing fields :: rest) .nextKey
  | .record _ none :: _            => .bad

/-- The value that a token opens or is. -/
def value (stack : List Frame) : Token → Build
  | .listOpen       => .more (.list [] :: stack) .firstItem
  | .recordOpen     => .more (.record [] none :: stack) .firstKey
  | .null           => place .null stack
  | .bool b         => place (.bool b) stack
  | .num (some n)   => place (.num n) stack
  | .str (some s)   => place (.str s) stack
  | .num none       => place .valueless stack
  | .str none       => place .valueless stack
  | _               => .bad

/-- Closes the innermost list. -/
def closeList : List Frame → Build
  | .list items :: rest => place ((Draft.list items.reverse).closed rest) rest
  | _                   => .bad

/-- Closes the innermost record. -/
def closeRecord : List Frame → Build
  | .record fields none :: rest => place ((Draft.record fields.reverse .closed).closed rest) rest
  | .passing fields :: rest     => place ((Draft.record fields.reverse .keyless).closed rest) rest
  | _                           => .bad

/-- Takes a key of the innermost record; there is none in a string that stands for nothing. -/
def takeKey : Option String → List Frame → Build
  | some k, .record fields none :: rest => .more (.record fields (some k) :: rest) .colon
  | none,   .record fields none :: rest => .more (.passing fields :: rest) .colon
  | _,      .passing fields :: rest     => .more (.passing fields :: rest) .colon
  | _,      _                           => .bad

/-- Reads one token. -/
def act (stack : List Frame) : Await → Token → Build
  | .firstItem, .listClose      => closeList stack
  | .nextItem,  .listClose      => closeList stack
  | .nextItem,  .comma          => .more stack .value
  | .firstKey,  .recordClose    => closeRecord stack
  | .nextKey,   .recordClose    => closeRecord stack
  | .nextKey,   .comma          => .more stack .key
  | .firstKey,  .str k          => takeKey k stack
  | .key,       .str k          => takeKey k stack
  | .colon,     .colon          => .more stack .value
  | .value,     t               => value stack t
  | .firstItem, t               => value stack t
  | _,          _               => .bad

/-- The open lists and records around a value after which the text breaks off. -/
def wrap : Draft → List Frame → Draft
  | d, []                              => d
  | d, .list items :: rest             => wrap ((Draft.list (d :: items).reverse).closed rest) rest
  | d, .record fields (some k) :: rest =>
    wrap ((Draft.record ((k, d) :: fields).reverse .cut).closed rest) rest
  | _, .record fields none :: rest     => wrap ((Draft.record fields.reverse .cut).closed rest) rest
  | _, .passing fields :: rest         => wrap ((Draft.record fields.reverse .cut).closed rest) rest

/-- The draft of the tokens, and the tokens after it. -/
def build (stack : List Frame) (await : Await) : List Token → Draft × List Token
  | []      => (wrap .broken stack, [])
  | t :: ts =>
    match act stack await t with
    | .more stack await => build stack await ts
    | .done d           => (d, ts)
    | .bad              => (wrap .broken stack, [])

/-- The draft at the start of a text, and the tokens after it. -/
def scan (text : String) : Draft × List Token := build [] .value (Token.scan .between text.toList)

/-- The draft at the start of a text; what comes after it is not looked at. -/
def read (text : String) : Draft := (scan text).1

mutual

/-- The value of a draft, none where the text goes wrong in it; of a repeated key the last value
counts. -/
def json? : Draft → Option Json
  | .null            => some .null
  | .bool b          => some (.bool b)
  | .num n           => some (.num n)
  | .str s           => some (.str s)
  | .list items      => (jsonItems? items).map .arr
  | .record fields e =>
    if e.stops then none else (jsonFields? fields).map fun fs => .obj (Keyed.ofList fs)
  | .valueless       => none
  | .beyond _        => none
  | .broken          => none

/-- The values of the items. -/
def jsonItems? : List Draft → Option (List Json)
  | []      => some []
  | d :: ds =>
    match d.json?, jsonItems? ds with
    | some x, some xs => some (x :: xs)
    | _,      _       => none

/-- The values of the fields. -/
def jsonFields? : List (String × Draft) → Option (List (String × Json))
  | []           => some []
  | (k, d) :: ds =>
    match d.json?, jsonFields? ds with
    | some x, some xs => some ((k, x) :: xs)
    | _,      _       => none

end

mutual

/-- Whether a draft is well written: nothing in it is broken or cut. -/
def wellWritten : Draft → Bool
  | .null | .bool _ | .num _ | .str _ | .valueless => true
  | .list items      => wellWrittenItems items
  | .record fields e => e != .cut && wellWrittenFields fields
  | .beyond d        => d.wellWritten
  | .broken          => false

/-- Every item is well written. -/
def wellWrittenItems : List Draft → Bool
  | []      => true
  | d :: ds => d.wellWritten && wellWrittenItems ds

/-- Every field is well written. -/
def wellWrittenFields : List (String × Draft) → Bool
  | []           => true
  | (_, d) :: ds => d.wellWritten && wellWrittenFields ds

end

end Draft

namespace Json

mutual

/-- The draft of a value that is already there. -/
def draft : Json → Draft
  | .null     => .null
  | .bool b   => .bool b
  | .num n    => .num n
  | .str s    => .str s
  | .arr xs   => .list (draftItems xs)
  | .obj fs   => .record (draftFields fs) .closed

/-- The drafts of the items. -/
def draftItems : List Json → List Draft
  | []      => []
  | x :: xs => x.draft :: draftItems xs

/-- The drafts of the entries. -/
def draftFields : List (String × Json) → List (String × Draft)
  | []           => []
  | (k, x) :: fs => (k, x.draft) :: draftFields fs

end

/-- The value of a whole text: one value with nothing but blanks around it. -/
def read? (text : String) : Option Json :=
  match Draft.scan text with
  | (d, []) => d.json?
  | _       => none

end Json

end ApiAssembly
