import ApiAssembly.Json.Printer
import ApiAssembly.Number.Numeral

/-!
# Json — Token — the tokens of a JSON text

The text is read once, one character at a time. Blanks separate tokens and give none; the first
place where no token can be read gives the token `bad`, and nothing after it is looked at. A
numeral out of range and a string with a lone surrogate are well written but stand for nothing:
they are tokens without a value.
-/

namespace ApiAssembly

/-- A token of a JSON text; a numeral or string that stands for nothing has no value. -/
inductive Token where
  | listOpen | listClose | recordOpen | recordClose | comma | colon
  | null
  | bool (flag : Bool)
  | num (value : Option Number)
  | str (value : Option String)
  | bad

namespace Token

/-- Where in a string the reader stands: in its characters, after a backslash, in the four digits
of a code, or after a leading surrogate, whose trailing one has to follow. -/
inductive TextPlace where
  | plain
  | escape
  | code (left : Nat) (value : Nat) (leading : Option Nat)
  | leading (value : Nat)
  | leadingEscape (value : Nat)

/-- What the reader is in the middle of. -/
inductive Mode where
  | between
  | word (next : Char) (left : List Char) (token : Token)
  | numeral (n : Numeral)
  | text (place : TextPlace) (read : Option (List Char))

/-- What a character does to a string; characters read are in reverse order, and none once the
string stands for nothing. -/
inductive TextStep where
  | more (place : TextPlace) (read : Option (List Char))
  | closed (read : Option (List Char))
  | bad

/-- The value of a hexadecimal digit. -/
def hexValue? (c : Char) : Option Nat :=
  if '0' ≤ c ∧ c ≤ '9' then some (c.toNat - '0'.toNat)
  else if 'a' ≤ c ∧ c ≤ 'f' then some (c.toNat - 'a'.toNat + 10)
  else if 'A' ≤ c ∧ c ≤ 'F' then some (c.toNat - 'A'.toNat + 10)
  else none

/-- The character that a letter after a backslash stands for. -/
def escaped? (c : Char) : Option Char :=
  if c = '"' ∨ c = '\\' ∨ c = '/' then some c
  else if c = 'b' then some (Char.ofNat 8)
  else if c = 'f' then some (Char.ofNat 12)
  else if c = 'n' then some '\n'
  else if c = 'r' then some '\r'
  else if c = 't' then some '\t'
  else none

def isLeading (v : Nat) : Bool := 0xD800 ≤ v && v ≤ 0xDBFF

def isTrailing (v : Nat) : Bool := 0xDC00 ≤ v && v ≤ 0xDFFF

/-- The end of a four-digit code. -/
def codeStep (v : Nat) (lead : Option Nat) (read : Option (List Char)) : TextStep :=
  match lead with
  | some h =>
    if isTrailing v then
      .more .plain (read.map (Char.ofNat ((h - 0xD800) * 0x400 + (v - 0xDC00) + 0x10000) :: ·))
    else .more .plain none
  | none =>
    if isLeading v then .more (.leading v) read
    else if isTrailing v then .more .plain none
    else .more .plain (read.map (Char.ofNat v :: ·))

def plainStep (read : Option (List Char)) (c : Char) : TextStep :=
  if c = '"' then .closed read
  else if c = '\\' then .more .escape read
  else if c.toNat < 32 then .bad
  else .more .plain (read.map (c :: ·))

def escapeStep (read : Option (List Char)) (c : Char) : TextStep :=
  if c = 'u' then .more (.code 3 0 none) read
  else match escaped? c with
    | some e => .more .plain (read.map (e :: ·))
    | none   => .bad

/-- Reads one more character of a string. -/
def textStep (place : TextPlace) (read : Option (List Char)) (c : Char) : TextStep :=
  match place with
  | .plain           => plainStep read c
  | .escape          => escapeStep read c
  | .leading v       => if c = '\\' then .more (.leadingEscape v) read else plainStep none c
  | .leadingEscape v => if c = 'u' then .more (.code 3 0 (some v)) read else escapeStep none c
  | .code left v lead =>
    match hexValue? c, left with
    | some d, 0        => codeStep (v * 16 + d) lead read
    | some d, left + 1 => .more (.code left (v * 16 + d) lead) read
    | none,   _        => .bad

/-- The tokens and the mode that a character between tokens gives. -/
def start? (c : Char) : Option (List Token × Mode) :=
  if c = ' ' ∨ c = '\n' ∨ c = '\t' ∨ c = '\r' then some ([], .between)
  else if c = '[' then some ([.listOpen], .between)
  else if c = ']' then some ([.listClose], .between)
  else if c = '{' then some ([.recordOpen], .between)
  else if c = '}' then some ([.recordClose], .between)
  else if c = ',' then some ([.comma], .between)
  else if c = ':' then some ([.colon], .between)
  else if c = '"' then some ([], .text .plain (some []))
  else if c = 't' then some ([], .word 'r' ['u', 'e'] (.bool true))
  else if c = 'f' then some ([], .word 'a' ['l', 's', 'e'] (.bool false))
  else if c = 'n' then some ([], .word 'u' ['l', 'l'] .null)
  else (Numeral.start? c).map fun n => ([], .numeral n)

/-- The token of a string whose closing quote was read. -/
def ofText (read : Option (List Char)) : Token := .str (read.map fun cs => String.ofList cs.reverse)

/-- The tokens of the rest of a text. -/
def scan : Mode → List Char → List Token
  | .between,            []      => []
  | .word _ _ _,         []      => [.bad]
  | .text _ _,           []      => [.bad]
  | .numeral n,          []      => if n.complete then [.num n.number?] else [.bad]
  | .between,            c :: cs =>
    match start? c with
    | some (ts, m) => ts ++ scan m cs
    | none         => [.bad]
  | .word next left t,   c :: cs =>
    if c ≠ next then [.bad]
    else match left with
      | []      => t :: scan .between cs
      | l :: ls => scan (.word l ls t) cs
  | .numeral n,          c :: cs =>
    match n.step c with
    | .more n => scan (.numeral n) cs
    | .bad    => [.bad]
    | .ended  =>
      .num n.number? ::
        match start? c with
        | some (ts, m) => ts ++ scan m cs
        | none         => [.bad]
  | .text place read,    c :: cs =>
    match textStep place read c with
    | .more place read => scan (.text place read) cs
    | .closed read     => ofText read :: scan .between cs
    | .bad             => [.bad]

end Token

end ApiAssembly
