import ApiAssembly.Proofs.Json.Lexemes
import ApiAssembly.Proofs.Json.Nesting
import ApiAssembly.Proofs.Json.Reading

/-!
# Proofs — Json — which texts are read

A text has a well-written draft exactly when it begins with an element of the grammar, and it is a
JSON text exactly when no token comes after that element (`isJsonText_iff`).

What was read of a text is a piece of a value that is still open.  So the invariant of the reader
says what closes it: behind an item come, in each open list or record, the other items and the
bracket (`Closes`), and `Completes` adds what is awaited in front of this.  One token of the text is
one step towards it (`completes_act`).  The other way around, the derivation of a text says of each
of its parts what its tokens do to the list or record they are in (`Builds`).
-/

namespace ApiAssembly

open Grammar Token

namespace Draft

/-! ### What closes what is open -/

namespace Frame

/-- The bracket that closes a list or a record. -/
def bracket : Frame → Char
  | .list _     => ']'
  | .record _ _ => '\x7d'
  | .passing _  => '\x7d'

/-- What stands between its brackets. -/
def items : Frame → Rule
  | .list _     => .elements
  | .record _ _ => .members
  | .passing _  => .members

/-- What may come between an item and the bracket: other items behind a comma, or nothing. -/
def Tail (f : Frame) (cs : List Char) : Prop :=
  Spaces cs ∨ ∃ blanks more, Spaces blanks ∧ Derives f.items more ∧ cs = blanks ++ ',' :: more

end Frame

/-- What closes the open lists and records, behind an item of the innermost one. -/
def Closes : List Frame → List Char → Prop
  | [],         cs => cs = []
  | f :: stack, cs => ∃ tail below, f.Tail tail ∧ Closes stack below ∧
      cs = tail ++ f.bracket :: below

/-- The innermost list or record is closed without another item. -/
def ClosesAtOnce : List Frame → List Char → Prop
  | [],         _  => False
  | f :: stack, cs => ∃ blanks below, Spaces blanks ∧ Closes stack below ∧
      cs = blanks ++ f.bracket :: below

def ValueNext (stack : List Frame) (cs : List Char) : Prop :=
  ∃ blanks value below, Spaces blanks ∧ Derives .value value ∧ Closes stack below ∧
    cs = blanks ++ (value ++ below)

def ColonNext (stack : List Frame) (cs : List Char) : Prop :=
  ∃ blanks rest, Spaces blanks ∧ ValueNext stack rest ∧ cs = blanks ++ ':' :: rest

def KeyNext (stack : List Frame) (cs : List Char) : Prop :=
  ∃ blanks key rest, Spaces blanks ∧ IsQuoted key ∧ ColonNext stack rest ∧
    cs = blanks ++ (key ++ rest)

/-- The characters complete what is open, beginning with what is awaited. -/
def Completes (stack : List Frame) : Await → List Char → Prop
  | .value,     cs => ValueNext stack cs
  | .firstItem, cs => ValueNext stack cs ∨ ClosesAtOnce stack cs
  | .nextItem,  cs => Closes stack cs
  | .firstKey,  cs => KeyNext stack cs ∨ ClosesAtOnce stack cs
  | .key,       cs => KeyNext stack cs
  | .colon,     cs => ColonNext stack cs
  | .nextKey,   cs => Closes stack cs

variable {stack : List Frame} {cs blanks : List Char}

/-- What closes the innermost bracket at once closes it behind no more items. -/
theorem ClosesAtOnce.closes (h : ClosesAtOnce stack cs) : Closes stack cs := by
  cases stack with
  | nil => exact h.elim
  | cons f stack =>
    obtain ⟨blanks, below, hblanks, hbelow, rfl⟩ := h
    exact ⟨blanks, below, .inl hblanks, hbelow, rfl⟩

/-- An element and what comes after it in the list. -/
theorem elements_of_valueNext {ds : List Draft} (h : ValueNext (.list ds :: stack) cs) :
    ∃ items below, Derives .elements items ∧ Closes stack below ∧ cs = items ++ ']' :: below := by
  obtain ⟨before, value, _, hbefore, hvalue, ⟨tail, below, htail, hbelow, rfl⟩, rfl⟩ := h
  have hitems : Derives .elements (before ++ (value ++ tail)) := by
    rcases htail with hafter | ⟨after, more, hafter, hmore, rfl⟩
    · exact .lastElement (.element hbefore hvalue hafter)
    · have hall := Derives.moreElements (.element hbefore hvalue hafter) hmore
      simpa only [List.append_assoc] using hall
  exact ⟨_, below, hitems, hbelow, by simp [Frame.bracket]⟩

/-- A member and what comes after it in the record. -/
theorem members_of_keyNext {f : Frame} (hf : f.items = .members) (h : KeyNext (f :: stack) cs) :
    ∃ items below, Derives .members items ∧ Closes stack below ∧
      cs = items ++ f.bracket :: below := by
  obtain ⟨first, key, _, hfirst, hkey, ⟨mid, _, hmid, hnext, rfl⟩, rfl⟩ := h
  obtain ⟨before, value, _, hbefore, hvalue, ⟨tail, below, htail, hbelow, rfl⟩, rfl⟩ := hnext
  have hitems :
      Derives .members (first ++ (key ++ (mid ++ ':' :: (before ++ (value ++ tail))))) := by
    rcases htail with hafter | ⟨after, more, hafter, hmore, rfl⟩
    · exact .lastMember (.member hfirst hkey hmid (.element hbefore hvalue hafter))
    · rw [hf] at hmore
      have hall := Derives.moreMembers
        (.member hfirst hkey hmid (.element hbefore hvalue hafter)) hmore
      simpa only [List.append_assoc, List.cons_append] using hall
  exact ⟨_, below, hitems, hbelow, by simp⟩

/-! ### One token -/

/-- The characters complete what a step leaves open. -/
def Build.Completes : Build → List Char → Prop
  | .more stack await, cs => Draft.Completes stack await cs
  | .done _,           cs => cs = []
  | .bad,              _  => False

/-- Behind a value that was placed comes what closes the list or record it is in. -/
theorem closes_of_place {d : Draft} (h : (place d stack).Completes cs) : Closes stack cs := by
  cases stack with
  | nil => exact h
  | cons f rest =>
    cases f with
    | list ds => exact h
    | passing fs => exact h
    | record fs key =>
      cases key with
      | none => exact h.elim
      | some k => exact h

/-- A token that begins a value is followed by what completes the value. -/
theorem valueNext_of_value {t : Token} {lexeme : List Char} (h : (value stack t).Completes cs)
    (hblanks : Spaces blanks) (ht : IsLexeme t lexeme) :
    ValueNext stack (blanks ++ (lexeme ++ cs)) := by
  have scalar : ∀ {d : Draft}, (place d stack).Completes cs → Derives .value lexeme →
      ValueNext stack (blanks ++ (lexeme ++ cs)) := fun h hvalue =>
    ⟨blanks, lexeme, cs, hblanks, hvalue, closes_of_place h, rfl⟩
  -- The brackets of a list or a record, with what is between them.
  have bracketed : ∀ {inner below : List Char} {close : Char},
      Derives .value (lexeme ++ (inner ++ [close])) → Closes stack below →
      ValueNext stack (blanks ++ (lexeme ++ (inner ++ close :: below))) :=
    fun hvalue hbelow => ⟨blanks, _, _, hblanks, hvalue, hbelow, by simp⟩
  cases t with
  | listOpen =>
    obtain rfl := ht
    rcases h with h | ⟨inner, below, hinner, hbelow, rfl⟩
    · obtain ⟨items, below, hitems, hbelow, rfl⟩ := elements_of_valueNext h
      exact bracketed (.array hitems) hbelow
    · exact bracketed (.emptyArray hinner) hbelow
  | recordOpen =>
    obtain rfl := ht
    rcases h with h | ⟨inner, below, hinner, hbelow, rfl⟩
    · obtain ⟨items, below, hitems, hbelow, rfl⟩ := members_of_keyNext rfl h
      exact bracketed (.object hitems) hbelow
    · exact bracketed (.emptyObject hinner) hbelow
  | null =>
    obtain rfl := ht
    exact scalar h .null
  | bool b =>
    cases b with
    | true => obtain rfl := ht; exact scalar h .true
    | false => obtain rfl := ht; exact scalar h .false
  | num n => cases n <;> exact scalar h (.number ht)
  | str s => cases s <;> exact scalar h (.string ht)
  | _ => exact h.elim

/-- A closing bracket closes the list. -/
theorem closesAtOnce_of_closeList (h : (closeList stack).Completes cs) (hblanks : Spaces blanks) :
    ClosesAtOnce stack (blanks ++ ']' :: cs) := by
  cases stack with
  | nil => exact h.elim
  | cons f rest =>
    cases f with
    | list ds => exact ⟨blanks, cs, hblanks, closes_of_place h, rfl⟩
    | _ => exact h.elim

/-- A closing brace closes the record. -/
theorem closesAtOnce_of_closeRecord (h : (closeRecord stack).Completes cs)
    (hblanks : Spaces blanks) : ClosesAtOnce stack (blanks ++ '\x7d' :: cs) := by
  cases stack with
  | nil => exact h.elim
  | cons f rest =>
    cases f with
    | list ds => exact h.elim
    | passing fs => exact ⟨blanks, cs, hblanks, closes_of_place h, rfl⟩
    | record fs key =>
      cases key with
      | some k => exact h.elim
      | none => exact ⟨blanks, cs, hblanks, closes_of_place h, rfl⟩

/-- A key is followed by a colon. -/
theorem colonNext_of_takeKey {key : Option String} (h : (takeKey key stack).Completes cs) :
    ColonNext stack cs := by
  unfold takeKey at h
  split at h
  · exact h
  · exact h
  · exact h
  · exact h.elim

/-- Behind an item, the innermost list or record is one that the reader stands in. -/
def Stands : List Frame → Await → Prop
  | stack, .nextItem => ∃ ds rest, stack = .list ds :: rest
  | stack, .nextKey  => ∃ f rest, stack = f :: rest ∧ f.items = .members
  | _,     _         => True

/-- **One token of the text** is a step of the reader towards what completes the value. -/
theorem completes_act {await : Await} {t : Token} {lexeme : List Char}
    (hstands : Stands stack await) (h : (act stack await t).Completes cs) (hblanks : Spaces blanks)
    (ht : IsLexeme t lexeme) : Completes stack await (blanks ++ (lexeme ++ cs)) := by
  unfold act at h
  split at h
  case h_1 =>
    obtain rfl := ht
    exact .inr (closesAtOnce_of_closeList h hblanks)
  case h_2 =>
    obtain rfl := ht
    exact (closesAtOnce_of_closeList h hblanks).closes
  case h_3 =>
    obtain rfl := ht
    obtain ⟨ds, rest, rfl⟩ := hstands
    obtain ⟨items, below, hitems, hbelow, rfl⟩ := elements_of_valueNext h
    exact ⟨blanks ++ ',' :: items, below, .inr ⟨blanks, items, hblanks, hitems, rfl⟩, hbelow,
      by simp [Frame.bracket]⟩
  case h_4 =>
    obtain rfl := ht
    exact .inr (closesAtOnce_of_closeRecord h hblanks)
  case h_5 =>
    obtain rfl := ht
    exact (closesAtOnce_of_closeRecord h hblanks).closes
  case h_6 =>
    obtain rfl := ht
    obtain ⟨f, rest, rfl, hf⟩ := hstands
    obtain ⟨items, below, hitems, hbelow, rfl⟩ := members_of_keyNext hf h
    exact ⟨blanks ++ ',' :: items, below, .inr ⟨blanks, items, hblanks, hf ▸ hitems, rfl⟩, hbelow,
      by simp⟩
  case h_7 => exact .inl ⟨blanks, lexeme, cs, hblanks, ht, colonNext_of_takeKey h, rfl⟩
  case h_8 => exact ⟨blanks, lexeme, cs, hblanks, ht, colonNext_of_takeKey h, rfl⟩
  case h_9 =>
    obtain rfl := ht
    exact ⟨blanks, cs, hblanks, h, rfl⟩
  case h_10 => exact valueNext_of_value h hblanks ht
  case h_11 => exact .inl (valueNext_of_value h hblanks ht)
  case h_12 => exact h.elim

/-- The reader stands in the list or record that it goes on with. -/
def Build.Stands : Build → Prop
  | .more stack await => Draft.Stands stack await
  | .done _           => True
  | .bad              => True

theorem stands_place (d : Draft) (stack : List Frame) : (place d stack).Stands := by
  cases stack with
  | nil => trivial
  | cons f rest =>
    cases f with
    | list ds => exact ⟨_, _, rfl⟩
    | passing fs => exact ⟨_, _, rfl, rfl⟩
    | record fs key =>
      cases key with
      | none => trivial
      | some k => exact ⟨_, _, rfl, rfl⟩

theorem stands_value (stack : List Frame) (t : Token) : (value stack t).Stands := by
  cases t with
  | null => exact stands_place _ _
  | bool b => exact stands_place _ _
  | num n => cases n <;> exact stands_place _ _
  | str s => cases s <;> exact stands_place _ _
  | _ => trivial

theorem stands_closeList (stack : List Frame) : (closeList stack).Stands := by
  unfold closeList
  split
  · exact stands_place _ _
  · trivial

theorem stands_closeRecord (stack : List Frame) : (closeRecord stack).Stands := by
  unfold closeRecord
  split
  · exact stands_place _ _
  · exact stands_place _ _
  · trivial

theorem stands_takeKey (key : Option String) (stack : List Frame) : (takeKey key stack).Stands := by
  unfold takeKey
  split <;> trivial

/-- Behind every token the reader stands where it says it does. -/
theorem stands_act (stack : List Frame) (await : Await) (t : Token) :
    (act stack await t).Stands := by
  unfold act
  split
  case h_1 => exact stands_closeList _
  case h_2 => exact stands_closeList _
  case h_4 => exact stands_closeRecord _
  case h_5 => exact stands_closeRecord _
  case h_7 => exact stands_takeKey _ _
  case h_8 => exact stands_takeKey _ _
  case h_10 => exact stands_value _ _
  case h_11 => exact stands_value _ _
  all_goals trivial

/-! ### The rest of a text -/

/-- A value is well written no matter what is around it. -/
theorem wellWritten_closedIn (d : Draft) (around : List Frame) :
    (d.closed around).wellWritten = d.wellWritten := by
  unfold closed
  split <;> rfl

/-- Where a text breaks off, nothing around that place is well written. -/
theorem not_wellWritten_wrap {d : Draft} (hd : ¬ d.wellWritten) :
    ¬ (wrap d stack).wellWritten := by
  induction stack generalizing d with
  | nil => exact hd
  | cons f rest ih =>
    have hcut (fs : List (String × Draft)) : ¬ ((record fs .cut).closed rest).wellWritten :=
      fun h => Bool.false_ne_true ((wellWritten_closedIn _ rest).symm.trans h)
    cases f with
    | list ds =>
      refine ih fun h => hd ?_
      have hitems := wellWrittenItems_iff.mp ((wellWritten_closedIn _ rest).symm.trans h)
      exact hitems d (List.mem_reverse.mpr List.mem_cons_self)
    | passing fs => exact ih (hcut _)
    | record fs key =>
      cases key with
      | none => exact ih (hcut _)
      | some k => exact ih (hcut _)

/-- **What is read completes what is open**, and the rest of the text is left as it is. -/
theorem exists_of_build {await : Await} {d : Draft} {ts : List Token}
    (hstands : Stands stack await) (h : build stack await (Token.scan .between cs) = (d, ts))
    (hd : d.wellWritten) :
    ∃ used rest, cs = used ++ rest ∧ Completes stack await used ∧
      ts = Token.scan .between rest := by
  -- Each token is one step; the tokens behind it are those of what is left of the text.
  generalize htokens : Token.scan .between cs = us at h
  induction us generalizing cs stack await with
  | nil =>
    obtain ⟨rfl, -⟩ := Prod.mk.inj h
    exact absurd hd (not_wellWritten_wrap Bool.false_ne_true)
  | cons t us ih =>
    rw [build] at h
    have hbad : act stack await t ≠ .bad := by
      intro hact
      rw [hact] at h
      obtain ⟨rfl, -⟩ := Prod.mk.inj h
      exact absurd hd (not_wellWritten_wrap Bool.false_ne_true)
    have ht : t ≠ .bad := by
      rintro rfl
      exact hbad (by cases await <;> rfl)
    obtain ⟨blanks, lexeme, rest, rfl, hblanks, hlexeme, rfl⟩ := exists_of_scan_eq_cons htokens ht
    have hstep {used : List Char} (hused : (act stack await t).Completes used) :
        Completes stack await (blanks ++ (lexeme ++ used)) :=
      completes_act hstands hused hblanks hlexeme
    have hnext := stands_act stack await t
    cases hact : act stack await t with
    | more stack' await' =>
      rw [hact] at h hstep hnext
      obtain ⟨used, rest, rfl, hused, hts⟩ := ih hnext rfl h
      exact ⟨blanks ++ (lexeme ++ used), rest, by simp, hstep hused, hts⟩
    | done d' =>
      rw [hact] at h hstep
      obtain ⟨-, rfl⟩ := Prod.mk.inj h
      exact ⟨blanks ++ (lexeme ++ []), rest, by simp, hstep rfl, rfl⟩
    | bad => exact absurd hact hbad

/-! ### The tokens of a derivation -/

/-- The tokens are built into a well-written value wherever one may come. -/
def BuildsValue (ts : List Token) : Prop :=
  ∀ {stack : List Frame} {await : Await}, Json.MayCome stack await →
    ∃ d : Draft, d.wellWritten ∧ ∀ us, build stack await (ts ++ us) = (place d stack).run us

/-- The tokens are built into items of a list. -/
def BuildsItems (ts : List Token) : Prop :=
  ∀ (stack : List Frame) {await : Await} {ds : List Draft}, await = .value ∨ await = .firstItem →
    (∀ d ∈ ds, d.wellWritten) → ∃ ds' : List Draft, (∀ d ∈ ds', d.wellWritten) ∧
      ∀ us, build (.list ds :: stack) await (ts ++ us) = build (.list ds' :: stack) .nextItem us

/-- A key may come next in the list or record, and nothing in it is broken. -/
inductive Frame.TakesKey : Frame → Prop
  | record {fs : List (String × Draft)} (h : ∀ f ∈ fs, f.2.wellWritten) : TakesKey (.record fs none)
  | passing {fs : List (String × Draft)} (h : ∀ f ∈ fs, f.2.wellWritten) : TakesKey (.passing fs)

/-- The tokens are built into fields of a record. -/
def BuildsFields (ts : List Token) : Prop :=
  ∀ (stack : List Frame) {await : Await} {f : Frame}, await = .firstKey ∨ await = .key →
    f.TakesKey → ∃ f' : Frame, f'.TakesKey ∧
      ∀ us, build (f :: stack) await (ts ++ us) = build (f' :: stack) .nextKey us

/-- What the tokens of a part of a text are built into. -/
def Builds : Rule → List Token → Prop
  | .value | .element   => BuildsValue
  | .elements           => BuildsItems
  | .member | .members  => BuildsFields

/-- A part of a text is read as its tokens.  Only a numeral, and what may end with one, needs an end
behind it. -/
def ReadAs : Rule → List Char → List Token → Prop
  | .value, cs, ts => ∀ rest, (IsNumeral cs → Ends rest) →
      Token.scan .between (cs ++ rest) = ts ++ Token.scan .between rest
  | _,      cs, ts => Scans cs ts

theorem ends_spaces {rest : List Char} (h : Spaces blanks) (hrest : Ends rest) :
    Ends (blanks ++ rest) := by
  cases blanks with
  | nil => exact hrest
  | cons c blanks =>
    rintro _ hc
    obtain rfl := Option.some.inj hc
    rcases h c List.mem_cons_self with rfl | rfl | rfl | rfl <;> rfl

theorem scans_spaces (h : Spaces blanks) : Scans blanks [] := fun rest _ => scan_spaces h rest

/-- White space around a value gives no token. -/
theorem scans_element {before value after : List Char} {ts : List Token} (hbefore : Spaces before)
    (h : ReadAs .value value ts) (hafter : Spaces after) :
    Scans (before ++ (value ++ after)) ts := by
  intro rest hrest
  rw [List.append_assoc, List.append_assoc, scan_spaces hbefore,
    h (after ++ rest) fun _ => ends_spaces hafter hrest, scan_spaces hafter]

/-- What stands between brackets is read with them, whatever comes after it. -/
theorem readAs_bracketed {l r : Char} {tl tr : Token} {ts : List Token}
    (hl : start? l = some ([tl], .between)) (hr : start? r = some ([tr], .between))
    (hends : Numeral.endsAt r) (h : Scans cs ts) :
    ReadAs .value (l :: (cs ++ [r])) (tl :: (ts ++ [tr])) := by
  intro rest _
  have hright : Ends (r :: rest) := fun _ hc => Option.some.inj hc ▸ hends
  rw [List.cons_append, List.append_assoc, Token.scan, hl]
  show tl :: Token.scan .between (cs ++ r :: rest) = _
  rw [h _ hright, Token.scan, hr]
  simp

/-- A value of one token. -/
theorem buildsValue_scalar {t : Token} {d : Draft} (hd : d.wellWritten)
    (ht : ∀ stack, act stack .value t = place d stack ∧ act stack .firstItem t = place d stack) :
    BuildsValue [t] := by
  intro stack await hcome
  have hact : act stack await t = place d stack := by
    rcases hcome.awaited with rfl | rfl
    · exact (ht stack).1
    · exact (ht stack).2
  exact ⟨d, hd, fun _ => build_cons hact (hcome.placed d)⟩

/-- A bracket opens a list or a record where a value may stand. -/
theorem build_open {await : Await} (h : await = .value ∨ await = .firstItem) (us : List Token) :
    build stack await (.listOpen :: us) = build (.list [] :: stack) .firstItem us ∧
    build stack await (.recordOpen :: us) = build (.record [] none :: stack) .firstKey us := by
  rcases h with rfl | rfl <;> exact ⟨rfl, rfl⟩

/-- Items between brackets build a value. -/
theorem buildsValue_list {ts : List Token} (h : ts = [] ∨ BuildsItems ts) :
    BuildsValue (.listOpen :: (ts ++ [.listClose])) := by
  intro stack await hcome
  have hclose {ds : List Draft} (hds : ∀ d ∈ ds, d.wellWritten) :
      ((Draft.list ds.reverse).closed stack).wellWritten := by
    rw [wellWritten_closedIn]
    exact wellWrittenItems_iff.mpr fun d hd => hds d (List.mem_reverse.mp hd)
  rcases h with rfl | h
  · refine ⟨_, hclose (List.forall_mem_nil _), fun us => ?_⟩
    rw [List.cons_append, (build_open hcome.awaited _).1]
    exact build_cons rfl (hcome.placed _)
  · obtain ⟨ds, hds, hbuild⟩ := h stack (.inr rfl) (List.forall_mem_nil _)
    refine ⟨_, hclose hds, fun us => ?_⟩
    rw [List.cons_append, (build_open hcome.awaited _).1, List.append_assoc, hbuild]
    exact build_cons rfl (hcome.placed _)

/-- Members between braces build a value. -/
theorem buildsValue_record {ts : List Token} (h : ts = [] ∨ BuildsFields ts) :
    BuildsValue (.recordOpen :: (ts ++ [.recordClose])) := by
  intro stack await hcome
  have hfields {fs : List (String × Draft)} (hfs : ∀ f ∈ fs, f.2.wellWritten) (e : Ending)
      (he : e ≠ .cut) : ((Draft.record fs.reverse e).closed stack).wellWritten := by
    have hreverse : ∀ f ∈ fs.reverse, f.2.wellWritten := fun f hf => hfs f (List.mem_reverse.mp hf)
    rw [wellWritten_closedIn, wellWritten, wellWrittenFields_iff.mpr hreverse, bne_iff_ne.mpr he]
    rfl
  rcases h with rfl | h
  · refine ⟨_, hfields (List.forall_mem_nil _) .closed (by decide), fun us => ?_⟩
    rw [List.cons_append, (build_open hcome.awaited _).2]
    exact build_cons rfl (hcome.placed _)
  · obtain ⟨f, hf, hbuild⟩ := h stack (.inl rfl) (.record (List.forall_mem_nil _))
    cases hf with
    | @record fs hfs =>
      refine ⟨_, hfields hfs .closed (by decide), fun us => ?_⟩
      rw [List.cons_append, (build_open hcome.awaited _).2, List.append_assoc, hbuild]
      exact build_cons rfl (hcome.placed _)
    | @passing fs hfs =>
      refine ⟨_, hfields hfs .keyless (by decide), fun us => ?_⟩
      rw [List.cons_append, (build_open hcome.awaited _).2, List.append_assoc, hbuild]
      exact build_cons rfl (hcome.placed _)

theorem buildsItems_single {ts : List Token} (h : BuildsValue ts) : BuildsItems ts := by
  intro stack await ds hawait hds
  obtain ⟨d, hd, hbuild⟩ := h (.item hawait)
  exact ⟨d :: ds, List.forall_mem_cons.mpr ⟨hd, hds⟩, hbuild⟩

/-- A value and a comma in front of items build items. -/
theorem buildsItems_cons {ts ts' : List Token} (h : BuildsValue ts) (h' : BuildsItems ts') :
    BuildsItems (ts ++ .comma :: ts') := by
  intro stack await ds hawait hds
  obtain ⟨ds₁, hds₁, hbuild⟩ := buildsItems_single h stack hawait hds
  obtain ⟨ds₂, hds₂, hbuild'⟩ := h' stack (.inl rfl) hds₁
  refine ⟨ds₂, hds₂, fun us => ?_⟩
  rw [List.append_assoc, hbuild, ← hbuild']
  rfl

/-- Members with a comma between them build members. -/
theorem buildsFields_append {ts ts' : List Token} (h : BuildsFields ts) (h' : BuildsFields ts') :
    BuildsFields (ts ++ .comma :: ts') := by
  intro stack await f hawait hf
  obtain ⟨f₁, hf₁, hbuild⟩ := h stack hawait hf
  obtain ⟨f₂, hf₂, hbuild'⟩ := h' stack (.inr rfl) hf₁
  refine ⟨f₂, hf₂, fun us => ?_⟩
  rw [List.append_assoc, hbuild, ← hbuild']
  rfl

theorem buildsFields_single {ts : List Token} (key : Option String) (h : BuildsValue ts) :
    BuildsFields (.str key :: .colon :: ts) := by
  intro stack await f hawait hf
  have hpassing (fs : List (String × Draft)) : Json.MayCome (.passing fs :: stack) .value :=
    ⟨.inl rfl, fun d => nofun⟩
  cases hf with
  | @record fs hfs =>
    cases key with
    | none =>
      obtain ⟨d, -, hbuild⟩ := h (hpassing fs)
      refine ⟨.passing fs, .passing hfs, fun us => ?_⟩
      rcases hawait with rfl | rfl <;> exact hbuild us
    | some k =>
      have hcome : Json.MayCome (.record fs (some k) :: stack) .value := .entry
      obtain ⟨d, hd, hbuild⟩ := h hcome
      refine ⟨.record ((k, d) :: fs) none, .record (List.forall_mem_cons.mpr ⟨hd, hfs⟩),
        fun us => ?_⟩
      rcases hawait with rfl | rfl <;> exact hbuild us
  | @passing fs hfs =>
    obtain ⟨d, -, hbuild⟩ := h (hpassing fs)
    refine ⟨.passing fs, .passing hfs, fun us => ?_⟩
    rcases hawait with rfl | rfl <;> cases key <;> exact hbuild us

/-- **The tokens of a text of the grammar** are built into well-written drafts. -/
theorem exists_builds {rule : Rule} (h : Derives rule cs) :
    ∃ ts, ReadAs rule cs ts ∧ Builds rule ts := by
  induction h with
  | null =>
    exact ⟨[.null], fun rest _ => scan_word rfl rest,
      buildsValue_scalar (d := .null) rfl fun _ => ⟨rfl, rfl⟩⟩
  | false =>
    exact ⟨[.bool false], fun rest _ => scan_word rfl rest,
      buildsValue_scalar (d := .bool false) rfl fun _ => ⟨rfl, rfl⟩⟩
  | true =>
    exact ⟨[.bool true], fun rest _ => scan_word rfl rest,
      buildsValue_scalar (d := .bool true) rfl fun _ => ⟨rfl, rfl⟩⟩
  | number h =>
    obtain ⟨v, hv⟩ := exists_scans_of_isNumeral h
    refine ⟨[.num v], fun rest hrest => hv rest (hrest h), ?_⟩
    cases v with
    | none => exact buildsValue_scalar (d := .valueless) rfl fun _ => ⟨rfl, rfl⟩
    | some n => exact buildsValue_scalar (d := .num n) rfl fun _ => ⟨rfl, rfl⟩
  | string h =>
    obtain ⟨v, hv⟩ := exists_scan_of_isQuoted h
    refine ⟨[.str v], fun rest _ => hv rest, ?_⟩
    cases v with
    | none => exact buildsValue_scalar (d := .valueless) rfl fun _ => ⟨rfl, rfl⟩
    | some s => exact buildsValue_scalar (d := .str s) rfl fun _ => ⟨rfl, rfl⟩
  | emptyArray h =>
    exact ⟨_, readAs_bracketed rfl rfl rfl (scans_spaces h), buildsValue_list (.inl rfl)⟩
  | array _ ih =>
    obtain ⟨ts, hscans, hbuilds⟩ := ih
    exact ⟨_, readAs_bracketed rfl rfl rfl hscans, buildsValue_list (.inr hbuilds)⟩
  | emptyObject h =>
    exact ⟨_, readAs_bracketed rfl rfl rfl (scans_spaces h), buildsValue_record (.inl rfl)⟩
  | object _ ih =>
    obtain ⟨ts, hscans, hbuilds⟩ := ih
    exact ⟨_, readAs_bracketed rfl rfl rfl hscans, buildsValue_record (.inr hbuilds)⟩
  | element hbefore _ hafter ih =>
    obtain ⟨ts, hread, hbuilds⟩ := ih
    exact ⟨ts, scans_element hbefore hread hafter, hbuilds⟩
  | lastElement _ ih =>
    obtain ⟨ts, hscans, hbuilds⟩ := ih
    exact ⟨ts, hscans, buildsItems_single hbuilds⟩
  | moreElements _ _ ih ih' =>
    obtain ⟨ts, hscans, hbuilds⟩ := ih
    obtain ⟨ts', hscans', hbuilds'⟩ := ih'
    exact ⟨_, hscans.append rfl (.token ',' .comma rfl hscans'), buildsItems_cons hbuilds hbuilds'⟩
  | member hbefore hkey hafter _ ih =>
    obtain ⟨ts, hscans, hbuilds⟩ := ih
    obtain ⟨v, hv⟩ := exists_scan_of_isQuoted hkey
    refine ⟨_, fun rest hrest => ?_, buildsFields_single v hbuilds⟩
    rw [List.append_assoc, List.append_assoc, List.append_assoc, scan_spaces hbefore, hv,
      scan_spaces hafter, List.cons_append]
    exact congrArg (Token.str v :: ·) (Scans.token ':' .colon rfl hscans rest hrest)
  | lastMember _ ih => exact ih
  | moreMembers _ _ ih ih' =>
    obtain ⟨ts, hscans, hbuilds⟩ := ih
    obtain ⟨ts', hscans', hbuilds'⟩ := ih'
    exact ⟨_, hscans.append rfl (.token ',' .comma rfl hscans'),
      buildsFields_append hbuilds hbuilds'⟩

/-! ### Whole texts -/

/-- What is read of a text is one value with white space in front of it. -/
theorem exists_of_scan {text : String} (h : (read text).wellWritten) :
    ∃ blanks value rest, text.toList = blanks ++ (value ++ rest) ∧ Spaces blanks ∧
      Derives .value value ∧ (scan text).2 = Token.scan .between rest := by
  have hroot : Stands [] .value := trivial
  obtain ⟨_, rest, htext, ⟨blanks, value, _, hblanks, hvalue, rfl, rfl⟩, hrest⟩ :=
    exists_of_build hroot rfl h
  exact ⟨blanks, value, rest, by simpa using htext, hblanks, hvalue, hrest⟩

/-- **A text is a JSON text exactly when its draft is well written and no token comes after it.** -/
theorem isJsonText_iff {text : String} :
    IsJsonText text.toList ↔ (read text).wellWritten ∧ (scan text).2 = [] := by
  constructor
  · intro h
    obtain ⟨ts, hscans, hbuilds⟩ := exists_builds h
    obtain ⟨d, hd, hbuild⟩ := hbuilds .root
    have htokens : Token.scan .between text.toList = ts := by
      have hall := hscans [] nofun
      rwa [List.append_nil, Token.scan, List.append_nil] at hall
    have hscan : scan text = (d, []) := by
      have hall := hbuild []
      rwa [List.append_nil, ← htokens] at hall
    rw [read, hscan]
    exact ⟨hd, rfl⟩
  · rintro ⟨hd, hend⟩
    obtain ⟨blanks, value, rest, htext, hblanks, hvalue, hrest⟩ := exists_of_scan hd
    rw [htext]
    exact .element hblanks hvalue (scan_eq_nil_iff.mp (hrest.symm.trans hend))

instance (text : String) : Decidable (IsJsonText text.toList) :=
  decidable_of_iff _ isJsonText_iff.symm

example : IsJsonText " [1, -0.5e+3, \"\\u00e9\"]\n".toList := by decide +kernel

example : ¬ IsJsonText "[1,]".toList := by decide +kernel

/-- Of a text that begins with a numeral a number is read, if anything. -/
theorem read_of_isNumeral {text : String} {blanks value rest : List Char}
    (htext : text.toList = blanks ++ (value ++ rest)) (hblanks : Spaces blanks)
    (h : IsNumeral value) (hread : (read text).wellWritten) :
    (∃ n, read text = .num n) ∨ read text = .valueless := by
  obtain ⟨c, cs, n, -, rfl, hstart, -, -⟩ := Numeral.exists_run?_of_isNumeral h
  have htokens : Token.scan .between text.toList = Token.scan (.numeral n) (cs ++ rest) := by
    rw [htext, scan_spaces hblanks, List.cons_append, Token.scan, start?_of_numeral hstart]
    rfl
  rw [read, scan, htokens] at hread ⊢
  cases hnumeral : Token.scan (.numeral n) (cs ++ rest) with
  | nil => exact absurd hnumeral (scan_ne_nil (by simp))
  | cons t ts =>
    have ht : t ≠ .bad := by
      rintro rfl
      rw [hnumeral] at hread
      cases hread
    obtain ⟨_, _, m, -, -, -, rfl, -⟩ := of_scan_numeral hnumeral ht
    cases m.number? with
    | none => exact .inr rfl
    | some v => exact .inl ⟨v, rfl⟩

/-- **What is read of a text does not depend on what comes after it**: if it is a list or a record,
the same is read of every text that begins with the same value. -/
theorem exists_first_value {text : String} (h : (read text).wellWritten)
    (hbrackets : (∃ ds, read text = .list ds) ∨ ∃ fs e, read text = .record fs e) :
    ∃ value rest, text.toList = value ++ rest ∧ IsJsonText value ∧
      (IsJsonText text.toList ↔ Spaces rest) ∧
      ∀ rest', read (String.ofList (value ++ rest')) = read text := by
  obtain ⟨blanks, value, rest, htext, hblanks, hderives, hrest⟩ := exists_of_scan h
  have hnumeral : ¬ IsNumeral value := by
    intro hn
    rcases read_of_isNumeral htext hblanks hn h with ⟨n, hread⟩ | hread
    · rw [hread] at hbrackets
      simp at hbrackets
    · rw [hread] at hbrackets
      simp at hbrackets
  obtain ⟨ts, hread, hbuilds⟩ := exists_builds hderives
  obtain ⟨d, -, hbuild⟩ := hbuilds .root
  have hfirst (rest' : List Char) : (build [] .value
      (Token.scan .between (blanks ++ (value ++ rest')))).1 = d := by
    rw [scan_spaces hblanks, hread rest' fun hn => absurd hn hnumeral, hbuild]
    rfl
  refine ⟨blanks ++ value, rest, by rw [htext, List.append_assoc], ?_, ?_, fun rest' => ?_⟩
  · have hone := Derives.element hblanks hderives spaces_nil
    rwa [List.append_nil] at hone
  · rw [isJsonText_iff, hrest, scan_eq_nil_iff]
    exact and_iff_right h
  · rw [read, scan, read, scan, String.toList_ofList, htext, List.append_assoc, hfirst, hfirst]

end Draft

end ApiAssembly
