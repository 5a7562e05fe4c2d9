import ApiAssembly.Proofs.Json.Tokens

/-!
# Proofs — Json — the grammar of JSON texts

`Derives rule cs` is the grammar of JSON: a value, an element (a value with white space around it),
and the elements and members between brackets.  A JSON text is one element (`IsJsonText`).

A numeral is the one part of it that no token ends.  What is read as a numeral is one of the grammar
(`isNumeral_of_run?`), by what may come next in each place of it (`Tail`), and each numeral of the
grammar is read as one, since its parts lead from place to place (`Goes`,
`exists_run?_of_isNumeral`).
-/

namespace ApiAssembly

namespace Grammar

/-! ### The grammar -/

def IsSpace (c : Char) : Prop := c = ' ' ∨ c = '\n' ∨ c = '\t' ∨ c = '\r'

/-- Nothing but white space. -/
def Spaces (cs : List Char) : Prop := ∀ c ∈ cs, IsSpace c

def IsDigit (c : Char) : Prop := '0' ≤ c ∧ c ≤ '9'

def IsHexDigit (c : Char) : Prop := IsDigit c ∨ ('a' ≤ c ∧ c ≤ 'f') ∨ ('A' ≤ c ∧ c ≤ 'F')

/-- Any number of digits. -/
def Digits (cs : List Char) : Prop := ∀ c ∈ cs, IsDigit c

/-- A zero, or digits that do not begin with one. -/
inductive IsWhole : List Char → Prop
  | zero : IsWhole ['0']
  | digits {c : Char} {cs : List Char} (hc : IsDigit c) (hne : c ≠ '0') (h : Digits cs) :
      IsWhole (c :: cs)

inductive IsFraction : List Char → Prop
  | none : IsFraction []
  | digits {c : Char} {cs : List Char} (hc : IsDigit c) (h : Digits cs) :
      IsFraction ('.' :: c :: cs)

inductive IsPower : List Char → Prop
  | none : IsPower []
  | digits {mark c : Char} {sign cs : List Char} (hmark : mark = 'e' ∨ mark = 'E')
      (hsign : sign = [] ∨ sign = ['+'] ∨ sign = ['-']) (hc : IsDigit c) (h : Digits cs) :
      IsPower (mark :: (sign ++ c :: cs))

inductive IsNumeral : List Char → Prop
  | mk {sign whole fraction power : List Char} (hsign : sign = [] ∨ sign = ['-'])
      (hwhole : IsWhole whole) (hfraction : IsFraction fraction) (hpower : IsPower power) :
      IsNumeral (sign ++ (whole ++ (fraction ++ power)))

/-- The characters that may follow a backslash, besides the codes. -/
def escapes : List Char := ['"', '\\', '/', 'b', 'f', 'n', 'r', 't']

/-- What stands between the quotes of a string. -/
inductive Characters : List Char → Prop
  | nil : Characters []
  | plain {c : Char} {cs : List Char} (hquote : c ≠ '"') (hback : c ≠ '\\')
      (hcontrol : 32 ≤ c.toNat) (h : Characters cs) : Characters (c :: cs)
  | escape {c : Char} {cs : List Char} (hc : c ∈ escapes) (h : Characters cs) :
      Characters ('\\' :: c :: cs)
  | code {code cs : List Char} (hlength : code.length = 4) (hcode : ∀ c ∈ code, IsHexDigit c)
      (h : Characters cs) : Characters ('\\' :: 'u' :: (code ++ cs))

inductive IsQuoted : List Char → Prop
  | mk {cs : List Char} (h : Characters cs) : IsQuoted ('"' :: (cs ++ ['"']))

inductive Rule where
  | value | element | elements | member | members

/-- The grammar of JSON. -/
inductive Derives : Rule → List Char → Prop
  | null : Derives .value ['n', 'u', 'l', 'l']
  | false : Derives .value ['f', 'a', 'l', 's', 'e']
  | true : Derives .value ['t', 'r', 'u', 'e']
  | number {cs : List Char} (h : IsNumeral cs) : Derives .value cs
  | string {cs : List Char} (h : IsQuoted cs) : Derives .value cs
  | emptyArray {blanks : List Char} (hblanks : Spaces blanks) :
      Derives .value ('[' :: (blanks ++ [']']))
  | array {cs : List Char} (h : Derives .elements cs) : Derives .value ('[' :: (cs ++ [']']))
  | emptyObject {blanks : List Char} (hblanks : Spaces blanks) :
      Derives .value ('\x7b' :: (blanks ++ ['\x7d']))
  | object {cs : List Char} (h : Derives .members cs) :
      Derives .value ('\x7b' :: (cs ++ ['\x7d']))
  | element {before cs after : List Char} (hbefore : Spaces before) (h : Derives .value cs)
      (hafter : Spaces after) : Derives .element (before ++ (cs ++ after))
  | lastElement {cs : List Char} (h : Derives .element cs) : Derives .elements cs
  | moreElements {cs more : List Char} (h : Derives .element cs) (hmore : Derives .elements more) :
      Derives .elements (cs ++ ',' :: more)
  | member {before key after cs : List Char} (hbefore : Spaces before) (hkey : IsQuoted key)
      (hafter : Spaces after) (h : Derives .element cs) :
      Derives .member (before ++ (key ++ (after ++ ':' :: cs)))
  | lastMember {cs : List Char} (h : Derives .member cs) : Derives .members cs
  | moreMembers {cs more : List Char} (h : Derives .member cs) (hmore : Derives .members more) :
      Derives .members (cs ++ ',' :: more)

/-- The characters are one JSON text: one value with nothing but white space around it. -/
def IsJsonText (cs : List Char) : Prop := Derives .element cs

theorem spaces_nil : Spaces [] := fun _ h => absurd h List.not_mem_nil

end Grammar

open Grammar

/-! ### Numerals -/

/-- What has a value as a digit is one. -/
theorem isDigit_of_digit? {c : Char} {d : Nat} (h : digit? c = some d) : IsDigit c := by
  unfold digit? at h
  split at h
  case isTrue hc => exact hc
  case isFalse => cases h

theorem eq_zero_of_digit? {c : Char} (h : digit? c = some 0) : c = '0' := by
  have hc := isDigit_of_digit? h
  have hvalue : c.toNat - '0'.toNat = 0 := by
    rw [digit?, if_pos (show '0' ≤ c ∧ c ≤ '9' from hc)] at h
    exact Option.some.inj h
  refine Char.le_antisymm ?_ hc.1
  exact UInt32.le_iff_toNat_le.mpr (Nat.le_of_sub_eq_zero hvalue)

theorem ne_zero_of_digit? {c : Char} {d : Nat} (h : digit? c = some d) (hd : d ≠ 0) : c ≠ '0' := by
  rintro rfl
  exact hd (Option.some.inj h).symm

/-- A digit has a value. -/
theorem exists_digit? {c : Char} (h : IsDigit c) : ∃ d, digit? c = some d :=
  ⟨_, if_pos h⟩

theorem digits_nil : Digits [] := fun _ h => absurd h List.not_mem_nil

theorem digits_cons {c : Char} {cs : List Char} (hc : IsDigit c) (h : Digits cs) :
    Digits (c :: cs) :=
  List.forall_mem_cons.mpr ⟨hc, h⟩

namespace Numeral

/-- What may come after the digits of the whole part. -/
def AfterWhole (cs : List Char) : Prop :=
  ∃ fraction power, IsFraction fraction ∧ IsPower power ∧ cs = fraction ++ power

/-- What a numeral goes on with in a place. -/
def Tail : NumeralPlace → List Char → Prop
  | .sign,     cs => ∃ whole rest, IsWhole whole ∧ AfterWhole rest ∧ cs = whole ++ rest
  | .zero,     cs => AfterWhole cs
  | .whole,    cs => ∃ digits rest, Digits digits ∧ AfterWhole rest ∧ cs = digits ++ rest
  | .point,    cs => ∃ c digits power, IsDigit c ∧ Digits digits ∧ IsPower power ∧
      cs = c :: (digits ++ power)
  | .fraction, cs => ∃ digits power, Digits digits ∧ IsPower power ∧ cs = digits ++ power
  | .mark,     cs => ∃ sign c digits, (sign = [] ∨ sign = ['+'] ∨ sign = ['-']) ∧ IsDigit c ∧
      Digits digits ∧ cs = sign ++ c :: digits
  | .markSign, cs => ∃ c digits, IsDigit c ∧ Digits digits ∧ cs = c :: digits
  | .power,    cs => Digits cs

/-- What comes behind the mark of a power completes it. -/
theorem isPower_of_tail_mark {c : Char} {cs : List Char} (hc : c = 'e' ∨ c = 'E')
    (h : Tail .mark cs) : IsPower (c :: cs) := by
  obtain ⟨sign, d, digits, hsign, hd, hdigits, rfl⟩ := h
  exact .digits hc hsign hd hdigits

theorem afterWhole_nil : AfterWhole [] := ⟨[], [], .none, .none, rfl⟩

/-- Behind the whole part comes a point or the mark of a power. -/
theorem afterWhole_of_step {n m : Numeral} {c : Char} {cs : List Char}
    (h : n.afterWhole c = .more m) (hcs : Tail m.place cs) : AfterWhole (c :: cs) := by
  unfold afterWhole at h
  split at h
  case isTrue hc =>
    cases h
    obtain ⟨d, digits, power, hd, hdigits, hpower, rfl⟩ := hcs
    exact ⟨'.' :: d :: digits, power, .digits hd hdigits, hpower, by rw [hc]; rfl⟩
  split at h
  case isTrue hc =>
    cases h
    exact ⟨[], c :: cs, .none, isPower_of_tail_mark hc hcs, rfl⟩
  case isFalse => cases h

/-- A digit that a numeral goes on with, and what it goes on with behind it. -/
theorem tail_of_step_digit {n m : Numeral} {c : Char} {d : Nat} {cs : List Char}
    (hd : digit? c = some d) (h : n.step c = .more m) (hcs : Tail m.place cs) :
    Tail n.place (c :: cs) := by
  have hc := isDigit_of_digit? hd
  obtain ⟨place, _, _, _, _, _⟩ := n
  cases place with
  | sign =>
    cases d with
    | zero =>
      simp only [step, hd] at h
      cases h
      exact ⟨[c], cs, eq_zero_of_digit? hd ▸ .zero, hcs, rfl⟩
    | succ d =>
      simp only [step, hd] at h
      cases h
      obtain ⟨digits, rest, hdigits, hrest, rfl⟩ := hcs
      have hne := ne_zero_of_digit? hd (Nat.succ_ne_zero d)
      exact ⟨c :: digits, rest, .digits hc hne hdigits, hrest, rfl⟩
  | zero =>
    simp only [step, hd] at h
    cases h
  | whole =>
    simp only [step, hd] at h
    cases h
    obtain ⟨digits, rest, hdigits, hrest, rfl⟩ := hcs
    exact ⟨c :: digits, rest, digits_cons hc hdigits, hrest, rfl⟩
  | point =>
    simp only [step, hd] at h
    cases h
    obtain ⟨digits, power, hdigits, hpower, rfl⟩ := hcs
    exact ⟨c, digits, power, hc, hdigits, hpower, rfl⟩
  | fraction =>
    simp only [step, hd] at h
    cases h
    obtain ⟨digits, power, hdigits, hpower, rfl⟩ := hcs
    exact ⟨c :: digits, power, digits_cons hc hdigits, hpower, rfl⟩
  | mark =>
    simp only [step, hd] at h
    cases h
    exact ⟨[], c, cs, .inl rfl, hc, hcs, rfl⟩
  | markSign =>
    simp only [step, hd] at h
    cases h
    exact ⟨c, cs, hc, hcs, rfl⟩
  | power =>
    simp only [step, hd] at h
    cases h
    exact digits_cons hc hcs

/-- Another character that a numeral goes on with, and what it goes on with behind it. -/
theorem tail_of_step_other {n m : Numeral} {c : Char} {cs : List Char} (hc : digit? c = none)
    (h : n.step c = .more m) (hcs : Tail m.place cs) : Tail n.place (c :: cs) := by
  obtain ⟨place, _, _, _, _, _⟩ := n
  cases place with
  | sign | point | markSign | power =>
    simp only [step, hc] at h
    cases h
  | zero =>
    simp only [step, hc] at h
    exact afterWhole_of_step h hcs
  | whole =>
    simp only [step, hc] at h
    exact ⟨[], c :: cs, digits_nil, afterWhole_of_step h hcs, rfl⟩
  | fraction =>
    simp only [step, hc] at h
    split at h
    case isTrue hmark =>
      cases h
      exact ⟨[], c :: cs, digits_nil, isPower_of_tail_mark hmark hcs, rfl⟩
    case isFalse => cases h
  | mark =>
    simp only [step, hc] at h
    split at h
    case isTrue hsign =>
      cases h
      obtain ⟨d, digits, hd, hdigits, rfl⟩ := hcs
      exact ⟨[c], d, digits, .inr (.inl (by rw [hsign])), hd, hdigits, rfl⟩
    split at h
    case isTrue hsign =>
      cases h
      obtain ⟨d, digits, hd, hdigits, rfl⟩ := hcs
      exact ⟨[c], d, digits, .inr (.inr (by rw [hsign])), hd, hdigits, rfl⟩
    case isFalse => cases h

/-- A numeral that is complete needs nothing more. -/
theorem tail_nil_of_complete {n : Numeral} (h : n.complete) : Tail n.place [] := by
  unfold complete at h
  split at h
  case h_1 hplace => rw [hplace]; exact afterWhole_nil
  case h_2 hplace => rw [hplace]; exact ⟨[], [], digits_nil, afterWhole_nil, rfl⟩
  case h_3 hplace => rw [hplace]; exact ⟨[], [], digits_nil, .none, rfl⟩
  case h_4 hplace => rw [hplace]; exact digits_nil
  all_goals cases h

/-- What leads to a complete numeral is what may come next, by induction on the characters. -/
theorem tail_of_run? {n m : Numeral} {cs : List Char} (h : n.run? cs = some m) (hm : m.complete) :
    Tail n.place cs := by
  induction cs generalizing n with
  | nil =>
    cases h
    exact tail_nil_of_complete hm
  | cons c cs ih =>
    rw [run?] at h
    cases hstep : n.step c with
    | more n' =>
      rw [hstep] at h
      cases hc : digit? c with
      | some d => exact tail_of_step_digit hc hstep (ih h)
      | none => exact tail_of_step_other hc hstep (ih h)
    | ended => rw [hstep] at h; cases h
    | bad => rw [hstep] at h; cases h

/-- **What is read as a numeral is one.** -/
theorem isNumeral_of_run? {c : Char} {cs : List Char} {n m : Numeral} (hstart : start? c = some n)
    (h : n.run? cs = some m) (hm : m.complete) : IsNumeral (c :: cs) := by
  have htail := tail_of_run? h hm
  unfold start? at hstart
  split at hstart
  case isTrue hc =>
    cases hstart
    obtain ⟨whole, _, hwhole, ⟨fraction, power, hfraction, hpower, rfl⟩, rfl⟩ := htail
    rw [hc]
    exact .mk (.inr rfl) hwhole hfraction hpower
  split at hstart
  case h_1 hdigit =>
    cases hstart
    obtain ⟨fraction, power, hfraction, hpower, rfl⟩ := htail
    rw [eq_zero_of_digit? hdigit]
    exact .mk (.inl rfl) .zero hfraction hpower
  case h_2 d hne hdigit =>
    cases hstart
    obtain ⟨digits, _, hdigits, ⟨fraction, power, hfraction, hpower, rfl⟩, rfl⟩ := htail
    have hzero := ne_zero_of_digit? hdigit hne
    exact .mk (.inl rfl) (.digits (isDigit_of_digit? hdigit) hzero hdigits) hfraction hpower
  case h_3 => cases hstart

/-- A numeral can only end where it is complete. -/
theorem complete_of_ended {n : Numeral} {c : Char} (h : n.step c = .ended) : n.complete := by
  unfold step at h
  split at h
  case h_5 hplace _ => simp [complete, hplace]
  case h_7 hplace _ => simp [complete, hplace]
  case h_11 hplace _ => simp [complete, hplace]
  case h_13 =>
    split at h
    · cases h
    split at h <;> cases h
  case h_17 hplace _ => simp [complete, hplace]
  all_goals cases h

/-- The characters are read in one go, into a numeral that stands in one of the places. -/
def Goes (n : Numeral) (cs : List Char) (places : List NumeralPlace) : Prop :=
  ∃ m, n.run? cs = some m ∧ m.place ∈ places

variable {n m : Numeral} {c : Char} {cs cs' : List Char} {places places' : List NumeralPlace}

theorem goes_nil (h : n.place ∈ places) : Goes n [] places := ⟨n, rfl, h⟩

theorem goes_cons (h : n.step c = .more m) (hcs : Goes m cs places) : Goes n (c :: cs) places := by
  obtain ⟨m', hrun, hm'⟩ := hcs
  exact ⟨m', by rw [run?, h]; exact hrun, hm'⟩

/-- What comes second is read wherever the first leads to. -/
theorem Goes.append (h : Goes n cs places)
    (h' : ∀ m : Numeral, m.place ∈ places → Goes m cs' places') : Goes n (cs ++ cs') places' := by
  obtain ⟨m, hrun, hm⟩ := h
  induction cs generalizing n with
  | nil =>
    cases hrun
    exact h' m hm
  | cons c cs ih =>
    rw [run?] at hrun
    cases hstep : n.step c with
    | more n' => rw [hstep] at hrun; exact goes_cons hstep (ih hrun)
    | ended => rw [hstep] at hrun; cases hrun
    | bad => rw [hstep] at hrun; cases hrun

/-- Any number of digits, in a place that a digit leaves as it is. -/
theorem goes_digits {p : NumeralPlace} (hcs : Digits cs)
    (hp : p = .whole ∨ p = .fraction ∨ p = .power) (hn : n.place = p) : Goes n cs [p] := by
  induction cs generalizing n with
  | nil => exact goes_nil (List.mem_singleton.mpr hn)
  | cons c cs ih =>
    obtain ⟨hc, hcs⟩ := List.forall_mem_cons.mp hcs
    obtain ⟨d, hd⟩ := exists_digit? hc
    have hstep : ∃ m, n.step c = .more m ∧ m.place = p := by
      rcases hp with rfl | rfl | rfl <;> simp [step, hn, hd]
    obtain ⟨m, hstep, hm⟩ := hstep
    exact goes_cons hstep (ih hcs hm)

/-- The places in which a numeral without a power may end. -/
def unscaled : List NumeralPlace := [.zero, .whole, .fraction]

/-- A fraction leads from the whole part to its own digits. -/
theorem goes_fraction (h : IsFraction cs) (hn : n.place = .zero ∨ n.place = .whole) :
    Goes n cs unscaled := by
  cases h with
  | none =>
    refine goes_nil ?_
    rcases hn with hn | hn <;> simp [hn, unscaled]
  | @digits d cs hd hcs =>
    obtain ⟨v, hv⟩ := exists_digit? hd
    have hpoint : n.step '.' = .more { n with place := .point } := by
      rcases hn with hn | hn <;> simp [step, hn, afterWhole, show digit? '.' = none from rfl]
    have hfirst : step { n with place := .point } d =
        .more { n with place := .fraction, fraction := [v] } := by
      simp [step, hv]
    obtain ⟨m, hrun, hm⟩ : Goes { n with place := .fraction, fraction := [v] } cs [.fraction] :=
      goes_digits hcs (.inr (.inl rfl)) rfl
    have hplace : m.place ∈ unscaled := by simp [unscaled, List.mem_singleton.mp hm]
    exact goes_cons hpoint (goes_cons hfirst ⟨m, hrun, hplace⟩)

/-- The places in which a numeral may end. -/
def final : List NumeralPlace := .power :: unscaled

theorem complete_of_final (h : n.place ∈ final) : n.complete := by
  simp only [final, unscaled, List.mem_cons, List.not_mem_nil, or_false] at h
  rcases h with h | h | h | h <;> simp [complete, h]

/-- A power leads to the end of the numeral. -/
theorem goes_power (h : IsPower cs) (hn : n.place ∈ unscaled) : Goes n cs final := by
  cases h with
  | none => exact goes_nil (List.mem_cons_of_mem _ hn)
  | @digits mark d sign digits hmark hsign hd hdigits =>
    obtain ⟨v, hv⟩ := exists_digit? hd
    have hnone : digit? mark = none := by rcases hmark with rfl | rfl <;> rfl
    have hpoint : mark ≠ '.' := by rcases hmark with rfl | rfl <;> decide
    have hstep : n.step mark = .more { n with place := .mark } := by
      simp only [unscaled, List.mem_cons, List.not_mem_nil, or_false] at hn
      rcases hn with hn | hn | hn <;> simp [step, hn, afterWhole, hnone, hmark, hpoint]
    -- Behind the mark, and behind a sign as well, the first digit leads to the digits.
    have hdigits (k : Numeral) (hk : k.place = .mark ∨ k.place = .markSign) :
        Goes k (d :: digits) final := by
      have hfirst : k.step d = .more { k with place := .power, power := [v] } := by
        rcases hk with hk | hk <;> simp [step, hk, hv]
      obtain ⟨m, hrun, hm⟩ : Goes { k with place := .power, power := [v] } digits [.power] :=
        goes_digits hdigits (.inr (.inr rfl)) rfl
      exact goes_cons hfirst ⟨m, hrun, by simp [final, List.mem_singleton.mp hm]⟩
    refine goes_cons hstep ?_
    rcases hsign with rfl | rfl | rfl
    · exact hdigits _ (.inl rfl)
    · exact goes_cons rfl (hdigits _ (.inr rfl))
    · exact goes_cons rfl (hdigits _ (.inr rfl))

/-- What comes after the first character of the whole part, wherever that character was read. -/
theorem goes_afterFirst {digits fraction power : List Char} (hn : n.place = .zero ∧ digits = [] ∨
      n.place = .whole ∧ Digits digits) (hfraction : IsFraction fraction) (hpower : IsPower power) :
    Goes n (digits ++ (fraction ++ power)) final := by
  have hrest (k : Numeral) (hk : k.place = .zero ∨ k.place = .whole) :
      Goes k (fraction ++ power) final :=
    (goes_fraction hfraction hk).append fun _ hm => goes_power hpower hm
  rcases hn with ⟨hn, rfl⟩ | ⟨hn, hdigits⟩
  · exact hrest n (.inl hn)
  · exact (goes_digits hdigits (.inl rfl) hn).append fun k hk =>
      hrest k (.inr (List.mem_singleton.mp hk))

/-- **A numeral of the grammar is read as one.** -/
theorem exists_run?_of_isNumeral (h : IsNumeral cs) :
    ∃ c cs' n m, cs = c :: cs' ∧ start? c = some n ∧ n.run? cs' = some m ∧ m.complete := by
  obtain @⟨sign, whole, fraction, power, hsign, hwhole, hfraction, hpower⟩ := h
  -- The first character of the whole part, at the start and behind a sign.
  obtain ⟨c, digits, first, rfl, hstart, hstep, hfirst⟩ : ∃ c digits first, whole = c :: digits ∧
      start? c = some first ∧
      (∀ k : Numeral, k.place = .sign → ∃ m, k.step c = .more m ∧ m.place = first.place) ∧
      (first.place = .zero ∧ digits = [] ∨ first.place = .whole ∧ Digits digits) := by
    cases hwhole with
    | zero =>
      exact ⟨'0', [], _, rfl, rfl, fun k hk => ⟨{ k with place := .zero, whole := [0] },
        by simp [step, hk, show digit? '0' = some 0 from rfl], rfl⟩, .inl ⟨rfl, rfl⟩⟩
    | @digits c cs hc hne hcs =>
      obtain ⟨d, hd⟩ := exists_digit? hc
      have hzero : d ≠ 0 := fun h => hne (eq_zero_of_digit? (h ▸ hd))
      have hminus : c ≠ '-' := by rintro rfl; cases hd
      refine ⟨c, cs, { place := .whole, whole := [d] }, rfl, ?_, fun k hk =>
        ⟨{ k with place := .whole, whole := [d] }, ?_, rfl⟩, .inr ⟨rfl, hcs⟩⟩
      · simp [start?, hd, hminus]
      · simp [step, hk, hd]
  rcases hsign with rfl | rfl
  · obtain ⟨m, hrun, hm⟩ := goes_afterFirst hfirst hfraction hpower
    exact ⟨c, _, first, m, rfl, hstart, hrun, complete_of_final hm⟩
  · obtain ⟨k, hk, hplace⟩ := hstep { place := .sign, negative := true } rfl
    obtain ⟨m, hrun, hm⟩ := goes_cons hk (goes_afterFirst (hplace ▸ hfirst) hfraction hpower)
    exact ⟨'-', _, _, m, rfl, rfl, hrun, complete_of_final hm⟩

end Numeral

end ApiAssembly
