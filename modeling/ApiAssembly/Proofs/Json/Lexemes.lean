import ApiAssembly.Proofs.Json.Grammar

/-!
# Proofs — Json — the tokens of a text and the grammar

A token that is read stands behind white space and is written as the grammar says (`IsLexeme`), and
the rest of the text is read from behind it (`exists_of_scan_eq_cons`).  The other way around, a
numeral and a string of the grammar are each read as one token (`exists_scans_of_isNumeral`,
`exists_scan_of_isQuoted`).
-/

namespace ApiAssembly

open Grammar

namespace Token

/-! ### Strings -/

theorem isHexDigit_of_hexValue? {c : Char} {v : Nat} (h : hexValue? c = some v) : IsHexDigit c := by
  unfold hexValue? at h
  split at h
  case isTrue hc => exact .inl hc
  split at h
  case isTrue hc => exact .inr (.inl hc)
  split at h
  case isTrue hc => exact .inr (.inr hc)
  case isFalse => cases h

theorem exists_hexValue? {c : Char} (h : IsHexDigit c) : ∃ v, hexValue? c = some v := by
  unfold hexValue?
  split
  case isTrue => exact ⟨_, rfl⟩
  case isFalse hdigit =>
  split
  case isTrue => exact ⟨_, rfl⟩
  case isFalse hlower =>
    rcases h with h | h | h
    · exact absurd h hdigit
    · exact absurd h hlower
    · exact ⟨_, if_pos h⟩

theorem mem_escapes_of_escaped? {c e : Char} (h : escaped? c = some e) : c ∈ escapes := by
  unfold escaped? at h
  split at h
  case isTrue hc => rcases hc with rfl | rfl | rfl <;> simp [escapes]
  case isFalse =>
    split at h
    case isTrue hc => simp [escapes, hc]
    split at h
    case isTrue hc => simp [escapes, hc]
    split at h
    case isTrue hc => simp [escapes, hc]
    split at h
    case isTrue hc => simp [escapes, hc]
    split at h
    case isTrue hc => simp [escapes, hc]
    case isFalse => cases h

theorem exists_escaped? {c : Char} (h : c ∈ escapes) : c ≠ 'u' ∧ ∃ e, escaped? c = some e := by
  simp only [escapes, List.mem_cons, List.not_mem_nil, or_false] at h
  rcases h with rfl | rfl | rfl | rfl | rfl | rfl | rfl | rfl <;> exact ⟨by decide, _, rfl⟩

/-- What a string goes on with in a place, up to its closing quote. -/
def Inside : TextPlace → List Char → Prop
  | .plain,           cs => Characters cs
  | .leading _,       cs => Characters cs
  | .escape,          cs => Characters ('\\' :: cs)
  | .leadingEscape _, cs => Characters ('\\' :: cs)
  | .code left _ _,   cs => ∃ code rest, code.length = left + 1 ∧ (∀ c ∈ code, IsHexDigit c) ∧
      Characters rest ∧ cs = code ++ rest

/-- The places in which the next character of a string is read. -/
inductive AtCharacter : TextPlace → Prop
  | plain : AtCharacter .plain
  | leading (v : Nat) : AtCharacter (.leading v)

variable {place place' : TextPlace} {read read' : Option (List Char)} {c : Char}

theorem plainStep_more (h : plainStep read c = .more place read') :
    c = '\\' ∧ place = .escape ∨ c ≠ '"' ∧ c ≠ '\\' ∧ 32 ≤ c.toNat ∧ place = .plain := by
  unfold plainStep at h
  split at h
  case isTrue => cases h
  case isFalse hquote =>
  split at h
  case isTrue hc =>
    cases h
    exact .inl ⟨hc, rfl⟩
  case isFalse hback =>
  split at h
  case isTrue => cases h
  case isFalse hcontrol =>
    cases h
    exact .inr ⟨hquote, hback, Nat.le_of_not_lt hcontrol, rfl⟩

theorem plainStep_closed (h : plainStep read c = .closed read') : c = '"' := by
  unfold plainStep at h
  split at h
  case isTrue hc => exact hc
  split at h
  · cases h
  split at h <;> cases h

theorem escapeStep_more (h : escapeStep read c = .more place read') :
    c = 'u' ∧ place = .code 3 0 none ∨ c ∈ escapes ∧ place = .plain := by
  unfold escapeStep at h
  split at h
  case isTrue hc =>
    cases h
    exact .inl ⟨hc, rfl⟩
  split at h
  case h_1 e he =>
    cases h
    exact .inr ⟨mem_escapes_of_escaped? he, rfl⟩
  case h_2 => cases h

theorem escapeStep_ne_closed : escapeStep read c ≠ .closed read' := by
  intro h
  unfold escapeStep at h
  split at h
  · cases h
  split at h <;> cases h

/-- After a code comes a plain place or one that waits for a trailing surrogate. -/
theorem codeStep_more (v : Nat) (lead : Option Nat) (read : Option (List Char)) :
    ∃ place read', codeStep v lead read = .more place read' ∧
      AtCharacter place := by
  unfold codeStep
  split
  · split
    · exact ⟨_, _, rfl, .plain⟩
    · exact ⟨_, _, rfl, .plain⟩
  · split
    · exact ⟨_, _, rfl, .leading _⟩
    split
    · exact ⟨_, _, rfl, .plain⟩
    · exact ⟨_, _, rfl, .plain⟩

/-- A character of a code is one of its digits, and behind the last one characters come next. -/
theorem textStep_code_cases (left v : Nat) (lead : Option Nat) (read : Option (List Char))
    (c : Char) :
    textStep (.code left v lead) read c = .bad ∨
    IsHexDigit c ∧
      ((∃ left' v', left = left' + 1 ∧
        textStep (.code left v lead) read c = .more (.code left' v' lead) read) ∨
      left = 0 ∧ ∃ place read', textStep (.code left v lead) read c = .more place read' ∧
        AtCharacter place) := by
  cases hd : hexValue? c with
  | none => exact .inl (by simp only [textStep, hd])
  | some d =>
    refine .inr ⟨isHexDigit_of_hexValue? hd, ?_⟩
    cases left with
    | zero => exact .inr ⟨rfl, textStep_lastCode hd v lead read ▸ codeStep_more _ lead read⟩
    | succ left => exact .inl ⟨left, _, rfl, textStep_code hd left v lead read⟩

/-- A character that a string goes on with, and what it goes on with behind it. -/
theorem inside_of_textStep {cs : List Char} (h : textStep place read c = .more place' read')
    (hcs : Inside place' cs) : Inside place (c :: cs) := by
  have plain : ∀ {read}, plainStep read c = .more place' read' → Characters (c :: cs) := by
    intro read h
    rcases plainStep_more h with ⟨rfl, rfl⟩ | ⟨hquote, hback, hcontrol, rfl⟩
    · exact hcs
    · exact .plain hquote hback hcontrol hcs
  -- A `u` behind the backslash begins a code of four digits.
  have code : ∀ {lead}, Inside (.code 3 0 lead) cs → Characters ('\\' :: 'u' :: cs) := by
    rintro lead ⟨code, rest, hlength, hcode, hrest, rfl⟩
    exact .code hlength hcode hrest
  have escape : ∀ {read}, escapeStep read c = .more place' read' →
      Characters ('\\' :: c :: cs) := by
    intro read h
    rcases escapeStep_more h with ⟨rfl, rfl⟩ | ⟨hc, rfl⟩
    · exact code hcs
    · exact .escape hc hcs
  cases place with
  | plain => exact plain h
  | escape => exact escape h
  | leading v =>
    rw [textStep] at h
    split at h
    case isTrue hc =>
      cases h
      rw [hc]
      exact hcs
    case isFalse => exact plain h
  | leadingEscape v =>
    rw [textStep] at h
    split at h
    case isTrue hc =>
      cases h
      rw [hc]
      exact code hcs
    case isFalse => exact escape h
  | code left v lead =>
    rcases textStep_code_cases left v lead read c with
      hbad | ⟨hc, ⟨left, v', rfl, hstep⟩ | ⟨rfl, place, read'', hstep, hplace⟩⟩
    · rw [hbad] at h
      cases h
    · obtain ⟨rfl, -⟩ := TextStep.more.inj (hstep.symm.trans h)
      obtain ⟨digits, rest, hlength, hdigits, hrest, rfl⟩ := hcs
      exact ⟨c :: digits, rest, congrArg (· + 1) hlength,
        List.forall_mem_cons.mpr ⟨hc, hdigits⟩, hrest, rfl⟩
    · obtain ⟨rfl, -⟩ := TextStep.more.inj (hstep.symm.trans h)
      have hrest : Characters cs := by cases hplace <;> exact hcs
      exact ⟨[c], cs, rfl, List.forall_mem_singleton.mpr hc, hrest, rfl⟩

theorem inside_nil_of_closed (h : textStep place read c = .closed read') :
    c = '"' ∧ Inside place [] := by
  cases place with
  | plain => exact ⟨plainStep_closed h, .nil⟩
  | escape => exact absurd h escapeStep_ne_closed
  | leading v =>
    rw [textStep] at h
    split at h
    case isTrue => cases h
    case isFalse => exact ⟨plainStep_closed h, .nil⟩
  | leadingEscape v =>
    rw [textStep] at h
    split at h
    case isTrue => cases h
    case isFalse => exact absurd h escapeStep_ne_closed
  | code left v lead =>
    rcases textStep_code_cases left v lead read c with
      hbad | ⟨-, ⟨_, _, -, hstep⟩ | ⟨-, _, _, hstep, -⟩⟩
    · rw [hbad] at h
      cases h
    · rw [hstep] at h
      cases h
    · rw [hstep] at h
      cases h

/-- A string that is read ends at its closing quote. -/
theorem exists_of_scan_text {cs : List Char} {t : Token} {ts : List Token}
    (h : scan (.text place read) cs = t :: ts) (ht : t ≠ .bad) :
    ∃ inside rest, cs = inside ++ '"' :: rest ∧ Inside place inside ∧ (∃ v, t = .str v) ∧
      ts = scan .between rest := by
  induction cs generalizing place read with
  | nil => exact absurd (List.cons.inj h).1.symm ht
  | cons c cs ih =>
    rw [scan] at h
    cases hstep : textStep place read c with
    | more place' read' =>
      rw [hstep] at h
      obtain ⟨inside, rest, rfl, hinside, hv, hts⟩ := ih h
      exact ⟨c :: inside, rest, rfl, inside_of_textStep hstep hinside, hv, hts⟩
    | closed read' =>
      rw [hstep] at h
      obtain ⟨rfl, hnil⟩ := inside_nil_of_closed hstep
      obtain ⟨rfl, rfl⟩ := List.cons.inj h
      exact ⟨[], cs, rfl, hnil, ⟨_, rfl⟩, rfl⟩
    | bad =>
      rw [hstep] at h
      exact absurd (List.cons.inj h).1.symm ht

/-- Four digits of a code are read, into a place where characters come next. -/
theorem exists_scan_code {code : List Char} {left v : Nat} {lead : Option Nat}
    (hlength : code.length = left + 1) (hcode : ∀ c ∈ code, IsHexDigit c) :
    ∃ place read', AtCharacter place ∧
      ∀ rest, scan (.text (.code left v lead) read) (code ++ rest) =
        scan (.text place read') rest := by
  induction code generalizing left v with
  | nil => cases hlength
  | cons c code ih =>
    obtain ⟨hc, hcode⟩ := List.forall_mem_cons.mp hcode
    obtain ⟨d, hd⟩ := exists_hexValue? hc
    cases left with
    | zero =>
      obtain rfl := List.eq_nil_of_length_eq_zero (Nat.succ.inj hlength)
      obtain ⟨place, read', hstep, hplace⟩ := codeStep_more (v * 16 + d) lead read
      refine ⟨place, read', hplace, fun rest => ?_⟩
      rw [List.cons_append, scan, textStep_lastCode hd, hstep]
      rfl
    | succ left =>
      obtain ⟨place, read', hplace, hscan⟩ := ih (v := v * 16 + d) (Nat.succ.inj hlength) hcode
      refine ⟨place, read', hplace, fun rest => ?_⟩
      rw [List.cons_append, scan, textStep_code hd, ← hscan]

/-- **The characters of a string are read up to the closing quote**, whatever comes after it. -/
theorem exists_scan_characters {cs : List Char} (h : Characters cs)
    (hplace : AtCharacter place) (read : Option (List Char)) :
    ∃ v, ∀ rest, scan (.text place read) (cs ++ '"' :: rest) = .str v :: scan .between rest := by
  induction h generalizing place read with
  | nil =>
    cases hplace with
    | plain => exact ⟨_, fun rest => rfl⟩
    | leading v => exact ⟨_, fun rest => rfl⟩
  | @plain c cs hquote hback hcontrol _ ih =>
    have hplain (read : Option (List Char)) :
        plainStep read c = .more .plain (read.map (c :: ·)) := by
      rw [plainStep, if_neg hquote, if_neg hback, if_neg (Nat.not_lt.mpr hcontrol)]
    obtain ⟨read', hstep⟩ : ∃ read', textStep place read c = .more .plain read' := by
      cases hplace with
      | plain => exact ⟨_, hplain read⟩
      | leading v => exact ⟨_, (if_neg hback).trans (hplain none)⟩
    obtain ⟨v, hv⟩ := ih .plain read'
    refine ⟨v, fun rest => ?_⟩
    rw [List.cons_append, scan, hstep, ← hv]
  | @escape c cs hc _ ih =>
    obtain ⟨hu, e, he⟩ := exists_escaped? hc
    have hescape (read : Option (List Char)) :
        escapeStep read c = .more .plain (read.map (e :: ·)) := by
      rw [escapeStep, if_neg hu, he]
    obtain ⟨place', read', hback, read'', hstep⟩ : ∃ place' read',
        textStep place read '\\' = .more place' read' ∧
        ∃ read'', textStep place' read' c = .more .plain read'' := by
      cases hplace with
      | plain => exact ⟨.escape, _, rfl, _, hescape read⟩
      | leading v => exact ⟨.leadingEscape v, _, rfl, _, (if_neg hu).trans (hescape none)⟩
    obtain ⟨v, hv⟩ := ih .plain read''
    refine ⟨v, fun rest => ?_⟩
    rw [List.cons_append, scan, hback, List.cons_append]
    show scan (.text place' read') (c :: (cs ++ '"' :: rest)) = _
    rw [scan, hstep, ← hv]
  | @code code cs hlength hcode _ ih =>
    obtain ⟨lead, hstart⟩ : ∃ lead, ∀ rest, scan (.text place read) ('\\' :: 'u' :: rest) =
        scan (.text (.code 3 0 lead) read) rest := by
      cases hplace with
      | plain => exact ⟨none, fun rest => rfl⟩
      | leading v => exact ⟨some v, fun rest => rfl⟩
    obtain ⟨place', read', hplace', hscan⟩ := exists_scan_code hlength hcode
    obtain ⟨v, hv⟩ := ih hplace' read'
    refine ⟨v, fun rest => ?_⟩
    rw [List.cons_append, List.cons_append, hstart, List.append_assoc, hscan, hv]

/-- **A string of the grammar is read as one token**, whatever comes after it. -/
theorem exists_scan_of_isQuoted {cs : List Char} (h : IsQuoted cs) :
    ∃ v, ∀ rest, scan .between (cs ++ rest) = .str v :: scan .between rest := by
  obtain ⟨hcs⟩ := h
  obtain ⟨v, hv⟩ := exists_scan_characters hcs .plain (some [])
  refine ⟨v, fun rest => ?_⟩
  rw [List.cons_append, List.append_assoc]
  exact hv rest

/-- **A numeral of the grammar is read as one token** in front of what ends it. -/
theorem exists_scans_of_isNumeral {cs : List Char} (h : IsNumeral cs) : ∃ v, Scans cs [.num v] := by
  obtain ⟨c, cs, n, m, rfl, hstart, hrun, hm⟩ := Numeral.exists_run?_of_isNumeral h
  refine ⟨m.number?, fun rest hrest => ?_⟩
  rw [List.cons_append, scan, start?_of_numeral hstart]
  exact scan_numeral hrun hm hrest

/-! ### Tokens -/

/-- How a token is written. -/
def IsLexeme : Token → List Char → Prop
  | .listOpen,    cs => cs = ['[']
  | .listClose,   cs => cs = [']']
  | .recordOpen,  cs => cs = ['\x7b']
  | .recordClose, cs => cs = ['\x7d']
  | .comma,       cs => cs = [',']
  | .colon,       cs => cs = [':']
  | .null,        cs => cs = ['n', 'u', 'l', 'l']
  | .bool true,   cs => cs = ['t', 'r', 'u', 'e']
  | .bool false,  cs => cs = ['f', 'a', 'l', 's', 'e']
  | .num _,       cs => IsNumeral cs
  | .str _,       cs => IsQuoted cs
  | .bad,         _  => False

theorem of_ite_eq {α : Type} {p : Prop} [Decidable p] {a b x : α} (h : (if p then a else b) = x) :
    p ∧ a = x ∨ b = x := by
  split at h
  case isTrue hp => exact .inl ⟨hp, h⟩
  case isFalse => exact .inr h

/-- What a character between tokens is: white space, a token by itself, or the first of one. -/
inductive Starts (c : Char) : List Token → Mode → Prop
  | space (h : IsSpace c) : Starts c [] .between
  | token {t : Token} (h : IsLexeme t [c]) : Starts c [t] .between
  | text (h : c = '"') : Starts c [] (.text .plain (some []))
  | word {next : Char} {left : List Char} {t : Token} (h : IsLexeme t (c :: next :: left)) :
      Starts c [] (.word next left t)
  | numeral {n : Numeral} (h : Numeral.start? c = some n) : Starts c [] (.numeral n)

theorem starts_of_start? {ts : List Token} {m : Mode} (h : start? c = some (ts, m)) :
    Starts c ts m := by
  -- The conditions are gone through in the order in which they are tested.
  rcases of_ite_eq h with ⟨hc, h⟩ | h
  · cases h
    exact .space hc
  rcases of_ite_eq h with ⟨hc, h⟩ | h
  · cases h
    exact .token (congrArg (fun c => [c]) hc)
  rcases of_ite_eq h with ⟨hc, h⟩ | h
  · cases h
    exact .token (congrArg (fun c => [c]) hc)
  rcases of_ite_eq h with ⟨hc, h⟩ | h
  · cases h
    exact .token (congrArg (fun c => [c]) hc)
  rcases of_ite_eq h with ⟨hc, h⟩ | h
  · cases h
    exact .token (congrArg (fun c => [c]) hc)
  rcases of_ite_eq h with ⟨hc, h⟩ | h
  · cases h
    exact .token (congrArg (fun c => [c]) hc)
  rcases of_ite_eq h with ⟨hc, h⟩ | h
  · cases h
    exact .token (congrArg (fun c => [c]) hc)
  rcases of_ite_eq h with ⟨hc, h⟩ | h
  · cases h
    exact .text hc
  rcases of_ite_eq h with ⟨hc, h⟩ | h
  · cases h
    exact .word (congrArg (fun c => c :: _) hc)
  rcases of_ite_eq h with ⟨hc, h⟩ | h
  · cases h
    exact .word (congrArg (fun c => c :: _) hc)
  rcases of_ite_eq h with ⟨hc, h⟩ | h
  · cases h
    exact .word (congrArg (fun c => c :: _) hc)
  obtain ⟨n, hn, h⟩ := Option.map_eq_some_iff.mp h
  cases h
  exact .numeral hn

theorem of_scan_word {next : Char} {left cs : List Char} {t t' : Token} {ts : List Token}
    (h : scan (.word next left t') cs = t :: ts) (ht : t ≠ .bad) :
    ∃ rest, cs = next :: (left ++ rest) ∧ t = t' ∧ ts = scan .between rest := by
  induction cs generalizing next left with
  | nil => exact absurd (List.cons.inj h).1.symm ht
  | cons c cs ih =>
    unfold scan at h
    split at h
    case isTrue => exact absurd (List.cons.inj h).1.symm ht
    case isFalse hc =>
      obtain rfl := Decidable.of_not_not hc
      cases left with
      | nil =>
        obtain ⟨rfl, rfl⟩ := List.cons.inj h
        exact ⟨cs, rfl, rfl, rfl⟩
      | cons l ls =>
        obtain ⟨rest, rfl, ht, hts⟩ := ih h
        exact ⟨rest, rfl, ht, hts⟩

theorem of_scan_numeral {n : Numeral} {cs : List Char} {t : Token} {ts : List Token}
    (h : scan (.numeral n) cs = t :: ts) (ht : t ≠ .bad) :
    ∃ used rest m, cs = used ++ rest ∧ n.run? used = some m ∧ m.complete ∧
      t = .num m.number? ∧ ts = scan .between rest := by
  induction cs generalizing n with
  | nil =>
    change (if n.complete then [num n.number?] else [bad]) = t :: ts at h
    split at h
    case isTrue hn =>
      obtain ⟨rfl, rfl⟩ := List.cons.inj h
      exact ⟨[], [], n, rfl, rfl, hn, rfl, rfl⟩
    case isFalse => exact absurd (List.cons.inj h).1.symm ht
  | cons c cs ih =>
    rw [scan] at h
    cases hstep : n.step c with
    | more n' =>
      rw [hstep] at h
      obtain ⟨used, rest, m, rfl, hrun, hm, ht, hts⟩ := ih h
      exact ⟨c :: used, rest, m, rfl, by rw [Numeral.run?, hstep]; exact hrun, hm, ht, hts⟩
    | ended =>
      rw [hstep] at h
      obtain ⟨rfl, rfl⟩ := List.cons.inj h
      exact ⟨[], c :: cs, n, rfl, rfl, Numeral.complete_of_ended hstep, rfl, by rw [scan]⟩
    | bad =>
      rw [hstep] at h
      exact absurd (List.cons.inj h).1.symm ht

/-- **The first token of a text** stands behind white space, is written as such a token is, and the
other tokens are those of the rest of the text. -/
theorem exists_of_scan_eq_cons {cs : List Char} {t : Token} {ts : List Token}
    (h : scan .between cs = t :: ts) (ht : t ≠ .bad) :
    ∃ blanks lexeme rest, cs = blanks ++ (lexeme ++ rest) ∧ Spaces blanks ∧ IsLexeme t lexeme ∧
      ts = scan .between rest := by
  induction cs with
  | nil => cases h
  | cons c cs ih =>
    rw [scan] at h
    cases hstart : start? c with
    | none =>
      rw [hstart] at h
      exact absurd (List.cons.inj h).1.symm ht
    | some started =>
      obtain ⟨us, m⟩ := started
      rw [hstart] at h
      change us ++ scan m cs = t :: ts at h
      cases starts_of_start? hstart with
      | space hc =>
        obtain ⟨blanks, lexeme, rest, rfl, hblanks, hlexeme, hts⟩ := ih h
        exact ⟨c :: blanks, lexeme, rest, rfl, List.forall_mem_cons.mpr ⟨hc, hblanks⟩, hlexeme,
          hts⟩
      | token hlexeme =>
        obtain ⟨rfl, rfl⟩ := List.cons.inj h
        exact ⟨[], [c], cs, rfl, spaces_nil, hlexeme, rfl⟩
      | text hc =>
        obtain ⟨inside, rest, rfl, hinside, ⟨v, rfl⟩, hts⟩ := exists_of_scan_text h ht
        refine ⟨[], '"' :: (inside ++ ['"']), rest, ?_, spaces_nil, .mk hinside, hts⟩
        rw [List.nil_append, List.cons_append, List.append_assoc, hc]
        rfl
      | @word next left u hlexeme =>
        obtain ⟨rest, rfl, rfl, hts⟩ := of_scan_word h ht
        exact ⟨[], c :: next :: left, rest, rfl, spaces_nil, hlexeme, hts⟩
      | numeral hn =>
        obtain ⟨used, rest, m, rfl, hrun, hm, rfl, hts⟩ := of_scan_numeral h ht
        exact ⟨[], c :: used, rest, rfl, spaces_nil, Numeral.isNumeral_of_run? hn hrun hm, hts⟩

theorem start?_of_isSpace {c : Char} (hc : IsSpace c) : start? c = some ([], .between) :=
  if_pos hc

theorem scan_spaces {blanks : List Char} (h : Spaces blanks) (rest : List Char) :
    scan .between (blanks ++ rest) = scan .between rest := by
  induction blanks with
  | nil => rfl
  | cons c cs ih =>
    obtain ⟨hc, hcs⟩ := List.forall_mem_cons.mp h
    rw [List.cons_append, scan, start?_of_isSpace hc]
    exact ih hcs

/-- Within a token there is always a token to come. -/
theorem scan_ne_nil {m : Mode} {cs : List Char} (hm : m ≠ .between) : scan m cs ≠ [] := by
  induction cs generalizing m with
  | nil =>
    cases m with
    | between => exact absurd rfl hm
    | word next left t => exact List.cons_ne_nil _ _
    | text place read => exact List.cons_ne_nil _ _
    | numeral n =>
      change (if n.complete then [num n.number?] else [bad]) ≠ []
      split <;> exact List.cons_ne_nil _ _
  | cons c cs ih =>
    cases m with
    | between => exact absurd rfl hm
    | word next left t =>
      unfold scan
      split
      · exact List.cons_ne_nil _ _
      cases left with
      | nil => exact List.cons_ne_nil _ _
      | cons l ls => exact ih (by simp)
    | numeral n =>
      rw [scan]
      cases n.step c with
      | more n' => exact ih (by simp)
      | ended => exact List.cons_ne_nil _ _
      | bad => exact List.cons_ne_nil _ _
    | text place read =>
      rw [scan]
      cases textStep place read c with
      | more place' read' => exact ih (by simp)
      | closed read' => exact List.cons_ne_nil _ _
      | bad => exact List.cons_ne_nil _ _

/-- **A text without tokens is white space.** -/
theorem scan_eq_nil_iff {cs : List Char} : scan .between cs = [] ↔ Spaces cs := by
  induction cs with
  | nil => exact ⟨fun _ => spaces_nil, fun _ => rfl⟩
  | cons c cs ih =>
    rw [scan]
    constructor
    · intro h
      cases hstart : start? c with
      | none => rw [hstart] at h; cases h
      | some started =>
        obtain ⟨us, m⟩ := started
        rw [hstart] at h
        obtain ⟨hnone, h⟩ := List.append_eq_nil_iff.mp h
        cases starts_of_start? hstart with
        | space hc => exact List.forall_mem_cons.mpr ⟨hc, ih.mp h⟩
        | token => cases hnone
        | text => exact absurd h (scan_ne_nil (by simp))
        | word => exact absurd h (scan_ne_nil (by simp))
        | numeral => exact absurd h (scan_ne_nil (by simp))
    · intro h
      obtain ⟨hc, hcs⟩ := List.forall_mem_cons.mp h
      rw [start?_of_isSpace hc]
      exact ih.mpr hcs

end Token

end ApiAssembly
