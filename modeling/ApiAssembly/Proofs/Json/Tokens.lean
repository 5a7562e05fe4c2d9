import ApiAssembly.Json.Token
import ApiAssembly.Proofs.Json.Tree

/-!
# Proofs — Json — the tokens of what is printed

`Json.tokens` are the tokens of a value.  Both texts of a value, the compact and the indented one,
are read as these tokens (`scans_chars`, `scans_indentedChars`).

`Scans cs ts` says that a text is read as some tokens in front of whatever comes next.  A numeral
only ends at a character that cannot go on with it, so what comes next has to begin with such a
character (`Ends`); blanks and the characters between values all do.

Of the numbers it is asked that each is read back: its text is one numeral, whose value is the
number.  A double may fail this, since reading rounds more than once.
-/

namespace ApiAssembly

/-! ### Numbers -/

namespace Numeral

/-- Reads all the characters into a numeral. -/
def run? (n : Numeral) : List Char → Option Numeral
  | []      => some n
  | c :: cs =>
    match n.step c with
    | .more n => run? n cs
    | _       => none

/-- The value of a text that is one numeral. -/
def value? : List Char → Option Number
  | []      => none
  | c :: cs => do
    let n ← (← start? c).run? cs
    if n.complete then n.number? else none

/-- Whether no numeral goes on with a character. -/
def endsAt (c : Char) : Bool := (digit? c).isNone && c != '.' && c != 'e' && c != 'E'

/-- A complete numeral ends in front of what cannot go on with it. -/
theorem step_of_endsAt {n : Numeral} {c : Char} (hn : n.complete) (hc : endsAt c) :
    n.step c = .ended := by
  simp only [endsAt, Bool.and_eq_true, Option.isNone_iff_eq_none, bne_iff_ne, ne_eq] at hc
  obtain ⟨⟨⟨hdigit, hpoint⟩, he⟩, hE⟩ := hc
  obtain ⟨place, _, _, _, _, _⟩ := n
  cases place <;> simp_all [complete, step, afterWhole]

end Numeral

namespace Number

/-- The text of the number is read as the number. -/
def ReadsBack (n : Number) : Prop := Numeral.value? n.chars = some n

instance (n : Number) : Decidable n.ReadsBack := decEq _ _

end Number

/-! ### Reading in front of more text -/

namespace Token

/-- The text does not begin with a character that goes on with a numeral. -/
def Ends (rest : List Char) : Prop := ∀ c ∈ rest.head?, Numeral.endsAt c

/-- The text is read as the tokens, whatever comes after it. -/
def Scans (cs : List Char) (ts : List Token) : Prop :=
  ∀ rest, Ends rest → scan .between (cs ++ rest) = ts ++ scan .between rest

namespace Scans

variable {cs cs' : List Char} {ts ts' : List Token} {c : Char}

theorem nil : Scans [] [] := fun _ _ => rfl

/-- A character that is a token by itself. -/
theorem token (c : Char) (t : Token) (hc : start? c = some ([t], .between)) (h : Scans cs ts) :
    Scans (c :: cs) (t :: ts) := by
  intro rest hrest
  rw [List.cons_append, scan, hc, List.cons_append, ← h rest hrest]
  rfl

/-- A blank in front gives no token. -/
theorem blank (c : Char) (hc : start? c = some ([], .between)) (h : Scans cs ts) :
    Scans (c :: cs) ts := by
  intro rest hrest
  rw [List.cons_append, scan, hc, ← h rest hrest]
  rfl

/-- What comes second has to begin with a character that ends a numeral. -/
theorem append (h : Scans cs ts) (hc : Numeral.endsAt c) (h' : Scans (c :: cs') ts') :
    Scans (cs ++ c :: cs') (ts ++ ts') := by
  intro rest hrest
  have hends : Ends (c :: cs' ++ rest) := fun _ he => Option.some.inj he ▸ hc
  rw [List.append_assoc, h _ hends, h' rest hrest, List.append_assoc]

end Scans

/-! ### Scalars -/

/-- A word is read whatever comes after it. -/
theorem scan_word {c next : Char} {left : List Char} {t : Token}
    (hc : start? c = some ([], .word next left t)) (rest : List Char) :
    scan .between (c :: next :: left ++ rest) = t :: scan .between rest := by
  rw [List.cons_append, scan, hc]
  show scan (.word next left t) (next :: left ++ rest) = _
  clear hc
  induction left generalizing next with
  | nil => rw [List.cons_append, scan, if_neg (by simp)]; rfl
  | cons l ls ih =>
    rw [List.cons_append, scan, if_neg (by simp)]
    exact ih

/-- A word is read to its last letter. -/
theorem scans_word {c next : Char} {left : List Char} {t : Token}
    (hc : start? c = some ([], .word next left t)) : Scans (c :: next :: left) [t] :=
  fun rest _ => scan_word hc rest

/-- A numeral is read up to what ends it. -/
theorem scan_numeral {n m : Numeral} {cs rest : List Char} (h : n.run? cs = some m)
    (hm : m.complete) (hrest : Ends rest) :
    scan (.numeral n) (cs ++ rest) = .num m.number? :: scan .between rest := by
  induction cs generalizing n with
  | nil =>
    obtain rfl := Option.some.inj h
    cases rest with
    | nil =>
      show (if n.complete then [num n.number?] else [bad]) = _
      rw [if_pos hm]
      rfl
    | cons c rest =>
      have hstep := Numeral.step_of_endsAt hm (hrest c rfl)
      conv => lhs; rw [List.nil_append, scan]
      generalize n.step c = step at hstep ⊢
      subst hstep
      rfl
  | cons c cs ih =>
    rw [Numeral.run?] at h
    rw [List.cons_append, scan]
    cases hstep : n.step c with
    | more n' => rw [hstep] at h; exact ih h
    | _ => rw [hstep] at h; cases h

theorem start?_of_numeral {c : Char} {n : Numeral} (h : Numeral.start? c = some n) :
    start? c = some ([], .numeral n) := by
  have hne : ∀ c', Numeral.start? c' = none → c ≠ c' := by
    rintro c' h' rfl
    rw [h'] at h
    cases h
  simp [start?, hne ' ' rfl, hne '\n' rfl, hne '\t' rfl, hne '\r' rfl, hne '[' rfl, hne ']' rfl,
    hne '\x7b' rfl, hne '\x7d' rfl, hne ',' rfl, hne ':' rfl, hne '"' rfl, hne 't' rfl, hne 'f' rfl,
    hne 'n' rfl, h]

/-- A number that is read back is one token. -/
theorem scans_number {n : Number} (h : n.ReadsBack) : Scans n.chars [.num (some n)] := by
  intro rest hrest
  rw [Number.ReadsBack] at h
  generalize n.chars = cs at h
  cases cs with
  | nil => cases h
  | cons c cs =>
    obtain ⟨m₀, hstart, h⟩ := Option.bind_eq_some_iff.mp h
    obtain ⟨m, hrun, h⟩ := Option.bind_eq_some_iff.mp h
    split at h
    case isFalse => cases h
    case isTrue hm =>
      rw [List.cons_append, scan, start?_of_numeral hstart]
      show scan (.numeral m₀) (cs ++ rest) = _
      rw [scan_numeral hrun hm hrest, h]
      rfl

/-! ### Texts -/

/-- A digit of an escape has its value. -/
theorem hexValue?_hexDigit : ∀ n : Fin 16, hexValue? (hexDigit n) = some n.val := by
  decide

/-- A digit of an escape is added to what was read of it. -/
theorem textStep_code {c : Char} {d : Nat} (h : hexValue? c = some d) (left v : Nat)
    (lead : Option Nat) (read : Option (List Char)) :
    textStep (.code (left + 1) v lead) read c = .more (.code left (v * 16 + d) lead) read := by
  simp only [textStep, h]

/-- The last digit completes the escape. -/
theorem textStep_lastCode {c : Char} {d : Nat} (h : hexValue? c = some d) (v : Nat)
    (lead : Option Nat) (read : Option (List Char)) :
    textStep (.code 0 v lead) read c = codeStep (v * 16 + d) lead read := by
  simp only [textStep, h]

/-- A character that is escaped by its code is read from the code. -/
theorem scan_code {c : Char} (hc : c.toNat < 32) (acc cs : List Char) :
    scan (.text .plain (some acc))
      ('\\' :: 'u' :: '0' :: '0' :: hexDigit (c.toNat / 16) :: hexDigit (c.toNat % 16) :: cs) =
    scan (.text .plain (some (c :: acc))) cs := by
  have hhigh := hexValue?_hexDigit ⟨c.toNat / 16, by omega⟩
  have hlow := hexValue?_hexDigit ⟨c.toNat % 16, by omega⟩
  have hvalue : (0 * 16 + c.toNat / 16) * 16 + c.toNat % 16 = c.toNat := by omega
  have hcode : codeStep c.toNat none (some acc) = .more .plain (some (c :: acc)) := by
    have hlead : isLeading c.toNat = false := by simp [isLeading]; omega
    have htrail : isTrailing c.toNat = false := by simp [isTrailing]; omega
    simp [codeStep, hlead, htrail, Char.ofNat_toNat]
  show scan (.text (.code 1 0 none) (some acc))
    (hexDigit (c.toNat / 16) :: hexDigit (c.toNat % 16) :: cs) = _
  rw [scan, textStep_code hhigh]
  show scan (.text (.code 0 _ none) (some acc)) (hexDigit (c.toNat % 16) :: cs) = _
  rw [scan, textStep_lastCode hlow, hvalue, hcode]

/-- What stands for a character in a string is read as the character. -/
theorem scan_escapeChar (c : Char) (acc cs : List Char) :
    scan (.text .plain (some acc)) (Json.escapeChar c ++ cs) =
      scan (.text .plain (some (c :: acc))) cs := by
  have char : ∀ n, c.toNat = n → c = Char.ofNat n := by
    rintro _ rfl
    exact (Char.ofNat_toNat c).symm
  unfold Json.escapeChar
  split
  case isTrue h => subst h; rfl
  split
  case isTrue h => subst h; rfl
  split
  case isTrue h => subst h; rfl
  split
  case isTrue h => subst h; rfl
  split
  case isTrue h => subst h; rfl
  split
  case isTrue h => rw [char 8 h]; rfl
  split
  case isTrue h => rw [char 12 h]; rfl
  split
  case isTrue h => exact scan_code h acc cs
  case isFalse hquote hback _ _ _ _ _ hcontrol =>
    rw [List.singleton_append, scan, textStep, plainStep, if_neg hquote, if_neg hback,
      if_neg hcontrol]
    rfl

/-- A quoted text is one token, whatever is in it, by induction on its characters. -/
theorem scans_quote (s : String) : Scans (Json.quote s) [.str (some s)] := by
  intro rest _
  -- What was read of the string so far is in `acc`, the last character first.
  have text : ∀ cs acc : List Char, scan (.text .plain (some acc))
      (cs.flatMap Json.escapeChar ++ '"' :: rest) =
      .str (some (String.ofList (acc.reverse ++ cs))) :: scan .between rest := by
    intro cs
    induction cs with
    | nil => intro acc; rw [List.append_nil]; rfl
    | cons c cs ih =>
      intro acc
      rw [List.flatMap_cons, List.append_assoc, scan_escapeChar, ih, List.reverse_cons,
        List.append_assoc, List.singleton_append]
  have hall := text s.toList []
  rw [List.reverse_nil, List.nil_append, String.ofList_toList] at hall
  simp only [Json.quote, List.cons_append, List.append_assoc, List.nil_append]
  exact hall

end Token

/-! ### Values -/

namespace Json

mutual

/-- The tokens of a value. -/
def tokens : Json → List Token
  | .null       => [.null]
  | .bool b     => [.bool b]
  | .num n      => [.num (some n)]
  | .str s      => [.str (some s)]
  | .arr items  => .listOpen :: itemTokens items ++ [.listClose]
  | .obj fields => .recordOpen :: fieldTokens fields ++ [.recordClose]

/-- The tokens of the items, with commas between them. -/
def itemTokens : List Json → List Token
  | []          => []
  | [x]         => x.tokens
  | x :: y :: r => x.tokens ++ .comma :: itemTokens (y :: r)

/-- The tokens of the entries, with commas between them. -/
def fieldTokens : List (String × Json) → List Token
  | []               => []
  | [(k, x)]         => .str (some k) :: .colon :: x.tokens
  | (k, x) :: f :: r => .str (some k) :: .colon :: x.tokens ++ .comma :: fieldTokens (f :: r)

end

open Token (Scans)

/-- Each number in the value is read back. -/
def NumbersReadBack (j : Json) : Prop := ∀ n ∈ j.numbers, n.ReadsBack

theorem NumbersReadBack.item {items : List Json} (h : (arr items).NumbersReadBack) {x : Json}
    (hx : x ∈ items) : x.NumbersReadBack := by
  intro n hn
  refine h n ?_
  rw [numbers, numbersOfItems_eq]
  exact List.mem_flatMap.mpr ⟨x, hx, hn⟩

theorem NumbersReadBack.entry {fields : List (String × Json)} (h : (obj fields).NumbersReadBack)
    {f : String × Json} (hf : f ∈ fields) : f.2.NumbersReadBack := by
  intro n hn
  refine h n ?_
  rw [numbers, numbersOfFields_eq]
  exact List.mem_flatMap.mpr ⟨f, hf, hn⟩

/-! ### The compact text -/

/-- Items are read with commas between them. -/
theorem scans_itemChars : ∀ {items : List Json}, (∀ x ∈ items, Scans x.chars x.tokens) →
    Scans (itemChars items) (itemTokens items)
  | [],          _ => Scans.nil
  | [x],         h => h x List.mem_cons_self
  | x :: y :: r, h => by
    obtain ⟨hx, hr⟩ := List.forall_mem_cons.mp h
    exact hx.append rfl (Scans.token ',' .comma rfl (scans_itemChars hr))

/-- Entries are read with commas between them, each as a key, a colon and a value. -/
theorem scans_fieldChars : ∀ {fields : List (String × Json)},
    (∀ f ∈ fields, Scans f.2.chars f.2.tokens) → Scans (fieldChars fields) (fieldTokens fields)
  | [],               _ => Scans.nil
  | [(k, x)],         h =>
    (Token.scans_quote k).append rfl (Scans.token ':' .colon rfl (h _ List.mem_cons_self))
  | (k, x) :: f :: r, h => by
    obtain ⟨hx, hr⟩ := List.forall_mem_cons.mp h
    have hrest := hx.append rfl (Scans.token ',' .comma rfl (scans_fieldChars hr))
    rw [fieldChars, List.append_assoc]
    exact (Token.scans_quote k).append rfl (Scans.token ':' .colon rfl hrest)

/-- **The compact text of a value is read as its tokens.** -/
theorem scans_chars (j : Json) (h : j.NumbersReadBack) : Scans j.chars j.tokens := by
  induction j using induct with
  | null => exact Token.scans_word rfl
  | bool b => cases b <;> exact Token.scans_word rfl
  | num n => exact Token.scans_number (h n List.mem_cons_self)
  | str s => exact Token.scans_quote s
  | arr items ih =>
    have hitems := scans_itemChars fun x hx => ih x hx (h.item hx)
    exact Scans.token '[' .listOpen rfl
      (hitems.append rfl (Scans.token ']' .listClose rfl Scans.nil))
  | obj fields ih =>
    have hfields := scans_fieldChars fun f hf => ih f hf (h.entry hf)
    exact Scans.token '\x7b' .recordOpen rfl
      (hfields.append rfl (Scans.token '\x7d' .recordClose rfl Scans.nil))

/-! ### The indented text -/

/-- A line end and the indentation behind it give no token. -/
theorem scans_newLine (depth : Nat) {cs : List Char} {ts : List Token} (h : Scans cs ts) :
    Scans (newLine depth ++ cs) ts := by
  have hblanks : ∀ n, Scans (List.replicate n ' ' ++ cs) ts := by
    intro n
    induction n with
    | zero => exact h
    | succ n ih => exact Scans.blank ' ' rfl ih
  exact Scans.blank '\n' rfl (hblanks _)

/-- What stands on the next line begins with a line feed, where a numeral ends. -/
theorem scans_append_newLine {cs cs' : List Char} {ts ts' : List Token} (depth : Nat)
    (h : Scans cs ts) (h' : Scans cs' ts') : Scans (cs ++ newLine depth ++ cs') (ts ++ ts') := by
  rw [List.append_assoc]
  exact h.append rfl (scans_newLine depth h')

/-- Items on lines of their own are read as those in one line. -/
theorem scans_indentedItems (depth : Nat) : ∀ {items : List Json},
    (∀ x ∈ items, Scans (x.indentedChars depth) x.tokens) →
    Scans (indentedItems depth items) (itemTokens items)
  | [],          _ => Scans.nil
  | [x],         h => scans_newLine depth (h x List.mem_cons_self)
  | x :: y :: r, h => by
    obtain ⟨hx, hr⟩ := List.forall_mem_cons.mp h
    have hrest := Scans.token ',' .comma rfl (scans_indentedItems depth hr)
    rw [indentedItems, List.append_assoc]
    exact scans_newLine depth (hx.append rfl hrest)

theorem scans_indentedFields (depth : Nat) : ∀ {fields : List (String × Json)},
    (∀ f ∈ fields, Scans (f.2.indentedChars depth) f.2.tokens) →
    Scans (indentedFields depth fields) (fieldTokens fields)
  | [],               _ => Scans.nil
  | [(k, x)],         h => by
    have hvalue := Scans.blank ' ' rfl (h _ List.mem_cons_self)
    rw [indentedFields, List.append_assoc]
    exact scans_newLine depth
      ((Token.scans_quote k).append rfl (Scans.token ':' .colon rfl hvalue))
  | (k, x) :: f :: r, h => by
    obtain ⟨hx, hr⟩ := List.forall_mem_cons.mp h
    have hrest := hx.append rfl (Scans.token ',' .comma rfl (scans_indentedFields depth hr))
    have hfield := (Token.scans_quote k).append rfl
      (Scans.token ':' .colon rfl (Scans.blank ' ' rfl hrest))
    rw [indentedFields, List.append_assoc, List.append_assoc]
    exact scans_newLine depth hfield

/-- **The indented text of a value is read as its tokens**, at whatever depth it stands. -/
theorem scans_indentedChars (j : Json) (h : j.NumbersReadBack) (depth : Nat) :
    Scans (j.indentedChars depth) j.tokens := by
  induction j using induct generalizing depth with
  | null => exact Token.scans_word rfl
  | bool b => cases b <;> exact Token.scans_word rfl
  | num n => exact Token.scans_number (h n List.mem_cons_self)
  | str s => exact Token.scans_quote s
  | arr items ih =>
    have hitems := scans_indentedItems (depth + 1) fun x hx => ih x hx (h.item hx) (depth + 1)
    have hclose := Scans.token ']' .listClose rfl Scans.nil
    cases items with
    | nil => exact Scans.token '[' .listOpen rfl hclose
    | cons x items =>
      exact Scans.token '[' .listOpen rfl (scans_append_newLine depth hitems hclose)
  | obj fields ih =>
    have hfields := scans_indentedFields (depth + 1) fun f hf => ih f hf (h.entry hf) (depth + 1)
    have hclose := Scans.token '\x7d' .recordClose rfl Scans.nil
    cases fields with
    | nil => exact Scans.token '\x7b' .recordOpen rfl hclose
    | cons f fields =>
      exact Scans.token '\x7b' .recordOpen rfl (scans_append_newLine depth hfields hclose)

end Json

end ApiAssembly
