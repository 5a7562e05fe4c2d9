/-!
# Text — searching, cutting and replacing

Texts are worked on as lists of characters. A blank is a character of the property White_Space;
`trim` takes blanks from both ends. `occurs` is the containment of one text in another
(`occurs_iff`), `replaceAll` puts a text in the place of each occurrence of another from left to
right, and the splitting functions cut at single characters.
-/

namespace ApiAssembly

/-- White space of all scripts. -/
def isBlank (c : Char) : Bool :=
  let n := c.toNat
  (9 ≤ n && n ≤ 13) || n == 0x20 || n == 0x85 || n == 0xA0 || n == 0x1680 ||
    (0x2000 ≤ n && n ≤ 0x200A) || n == 0x2028 || n == 0x2029 || n == 0x202F || n == 0x205F ||
    n == 0x3000

namespace Text

def trimStart (cs : List Char) : List Char := cs.dropWhile isBlank

/-- Takes the characters of a class from the end. -/
def dropEndWhile (p : Char → Bool) : List Char → List Char
  | []      => []
  | c :: cs =>
    match dropEndWhile p cs with
    | []      => if p c then [] else [c]
    | d :: ds => c :: d :: ds

def trimEnd (cs : List Char) : List Char := dropEndWhile isBlank cs

def trim (cs : List Char) : List Char := trimEnd (trimStart cs)

/-- Whether there is nothing but blanks. -/
def allBlank (cs : List Char) : Bool := cs.all isBlank

/-- Whether one text stands somewhere in another. -/
def occurs (needle : List Char) : List Char → Bool
  | []      => needle.isEmpty
  | c :: cs => needle.isPrefixOf (c :: cs) || occurs needle cs

theorem occurs_iff (needle hay : List Char) : occurs needle hay = true ↔ needle <:+: hay := by
  induction hay with
  | nil => simp [occurs]
  | cons c cs ih =>
    rw [occurs, Bool.or_eq_true, ih, List.isPrefixOf_iff_prefix, List.infix_cons_iff]

/-- Puts `new` in the place of each occurrence of a non-empty `pat`; `skip` characters belong to
an occurrence that was replaced. -/
def replaceFrom (pat new : List Char) : Nat → List Char → List Char
  | _,        []      => []
  | skip + 1, _ :: cs => replaceFrom pat new skip cs
  | 0,        c :: cs =>
    if pat.isPrefixOf (c :: cs) then new ++ replaceFrom pat new (pat.length - 1) cs
    else c :: replaceFrom pat new 0 cs

/-- Puts `new` in the place of each occurrence of `pat`, from left to right; an empty `pat` stands
before every character and at the end. -/
def replaceAll (pat new hay : List Char) : List Char :=
  if pat.isEmpty then hay.flatMap (fun c => new ++ [c]) ++ new else replaceFrom pat new 0 hay

/-- The parts before and after the first character of a class. -/
def splitOnce (p : Char → Bool) : List Char → Option (List Char × List Char)
  | []      => none
  | c :: cs => if p c then some ([], cs) else (splitOnce p cs).map fun r => (c :: r.1, r.2)

theorem splitOnce_append_cons {p : Char → Bool} {before after : List Char} {c : Char}
    (hbefore : ∀ x ∈ before, p x = false) (hc : p c = true) :
    splitOnce p (before ++ c :: after) = some (before, after) := by
  induction before with
  | nil => rw [List.nil_append, splitOnce, if_pos hc]
  | cons x before ih =>
    obtain ⟨hx, hbefore⟩ := List.forall_mem_cons.mp hbefore
    rw [List.cons_append, splitOnce, if_neg (by simp [hx]), ih hbefore]
    rfl

theorem exists_of_splitOnce_eq_some {p : Char → Bool} {cs before after : List Char}
    (h : splitOnce p cs = some (before, after)) : ∃ c, p c = true ∧ cs = before ++ c :: after := by
  induction cs generalizing before with
  | nil => cases h
  | cons d cs ih =>
    rw [splitOnce] at h
    split at h
    case isTrue hd =>
      obtain ⟨rfl, rfl⟩ := Prod.mk.inj (Option.some.inj h)
      exact ⟨d, hd, rfl⟩
    case isFalse =>
      obtain ⟨⟨a, b⟩, hr, he⟩ := Option.map_eq_some_iff.mp h
      obtain ⟨rfl, rfl⟩ := Prod.mk.inj he
      obtain ⟨c, hc, rfl⟩ := ih hr
      exact ⟨c, hc, rfl⟩

/-- The parts before and after the last character of a class. -/
def splitLast (p : Char → Bool) : List Char → Option (List Char × List Char)
  | []      => none
  | c :: cs =>
    match splitLast p cs with
    | some r => some (c :: r.1, r.2)
    | none   => if p c then some ([], cs) else none

/-- The parts between the characters of a class: one more than there are such characters. -/
def splitAll (p : Char → Bool) : List Char → List (List Char)
  | []      => [[]]
  | c :: cs =>
    match splitAll p cs with
    | []           => [[c]]
    | part :: rest => if p c then [] :: part :: rest else (c :: part) :: rest

/-- The texts with a separator between them. -/
def join (sep : List Char) : List (List Char) → List Char
  | []          => []
  | [x]         => x
  | x :: y :: r => x ++ sep ++ join sep (y :: r)

/-- Drops one carriage return from the end. -/
def dropReturn (line : List Char) : List Char :=
  if line.getLast? = some '\r' then line.dropLast else line

/-- The lines of a text: each is ended by a line feed, or by a carriage return and a line feed;
what follows the last one is a line of its own when there is any of it. -/
def lines (cs : List Char) : List (List Char) :=
  let parts := splitAll (· == '\n') cs
  let last := parts.getLast?.getD []
  parts.dropLast.map dropReturn ++ (if last.isEmpty then [] else [last])

/-- The rest of a text after another one that it begins with. -/
def strip? (start : List Char) (cs : List Char) : Option (List Char) :=
  if start.isPrefixOf cs then some (cs.drop start.length) else none

theorem strip?_eq_some_iff {start cs rest : List Char} :
    strip? start cs = some rest ↔ cs = start ++ rest := by
  rw [strip?]
  constructor
  · intro h
    split at h
    case isTrue hp =>
      obtain ⟨tail, rfl⟩ := List.isPrefixOf_iff_prefix.mp hp
      rw [List.drop_left] at h
      rw [Option.some.inj h]
    case isFalse => cases h
  · rintro rfl
    rw [if_pos (List.isPrefixOf_iff_prefix.mpr (List.prefix_append _ _)), List.drop_left]

end Text

/-- Whether a string is empty or blank. -/
def blankText (s : String) : Bool := Text.allBlank s.toList

/-- A string without the blanks at its ends. -/
def trimText (s : String) : String := String.ofList (Text.trim s.toList)

/-- A string with each occurrence of `pat` replaced. -/
def replaceText (pat new s : String) : String :=
  String.ofList (Text.replaceAll pat.toList new.toList s.toList)

/-- Equal when ASCII letters have no case. -/
def equalIgnoringCase (a b : String) : Bool :=
  a.toList.map Char.toLower == b.toList.map Char.toLower

end ApiAssembly
