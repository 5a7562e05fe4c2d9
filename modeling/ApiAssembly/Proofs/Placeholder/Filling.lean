import ApiAssembly.Placeholder.Token
import ApiAssembly.Proofs.Text.Replacing

/-!
# Proofs — Placeholder — filling the tokens of a text

Putting a value in the place of one token is a replacement of its text.  In a text whose dollar
signs all begin tokens (`Clean`) this finds the tokens and nothing else (`replaceAll_textOf`), and
leaves such a text when the value has no dollar sign.  So several tokens can be filled one after
the other, and a text that is filled for two values of one token tells the values apart exactly
when it has the token (`flatMap_eq_flatMap_iff`).
-/

namespace ApiAssembly

namespace Placeholder

/-- The text of pieces. -/
def textOf (ps : List Piece) : List Char := ps.flatMap Piece.chars

/-- A piece with no dollar sign but that of a token. -/
def Piece.IsClean : Piece → Prop
  | .char c     => c ≠ '$'
  | .token name => '$' ∉ name ∧ '}' ∉ name

instance : DecidablePred Piece.IsClean
  | .char c     => inferInstanceAs (Decidable (c ≠ '$'))
  | .token name => inferInstanceAs (Decidable ('$' ∉ name ∧ '}' ∉ name))

/-- Every dollar sign of a text begins a token. -/
def Clean (ps : List Piece) : Prop := ∀ p ∈ ps, p.IsClean

instance (ps : List Piece) : Decidable (Clean ps) := inferInstanceAs (Decidable (∀ p ∈ ps, _))

/-- Puts a value in the place of the tokens of a name. -/
def fill (name value : List Char) (ps : List Piece) : List Piece :=
  ps.flatMap fun p => if p = .token name then value.map .char else [p]

variable {name value : List Char} {ps : List Piece}

theorem textOf_map_char (cs : List Char) : textOf (cs.map .char) = cs := chars_of_plain cs

theorem textOf_append (ps qs : List Piece) : textOf (ps ++ qs) = textOf ps ++ textOf qs :=
  List.flatMap_append

theorem textOf_cons (p : Piece) (ps : List Piece) : textOf (p :: ps) = p.chars ++ textOf ps :=
  List.flatMap_cons

theorem textOf_pieces (cs : List Char) : textOf (pieces cs) = cs := chars_pieces cs

theorem fill_cons (name value : List Char) (p : Piece) (ps : List Piece) :
    fill name value (p :: ps) =
      (if p = .token name then value.map .char else [p]) ++ fill name value ps :=
  List.flatMap_cons

theorem fill_append (name value : List Char) (ps qs : List Piece) :
    fill name value (ps ++ qs) = fill name value ps ++ fill name value qs :=
  List.flatMap_append

/-- Characters are no tokens. -/
theorem fill_map_char (name value cs : List Char) :
    fill name value (cs.map .char) = cs.map .char := by
  induction cs with
  | nil => rfl
  | cons c cs ih => rw [List.map_cons, fill_cons, ih, if_neg nofun]; rfl

theorem fill_token_self (name value : List Char) :
    fill name value [.token name] = value.map .char :=
  (List.flatMap_singleton _ _).trans (if_pos rfl)

theorem fill_token_of_ne {name other : List Char} (value : List Char) (h : other ≠ name) :
    fill name value [.token other] = [.token other] :=
  (List.flatMap_singleton _ _).trans (if_neg fun he => h (Piece.token.inj he))

theorem clean_map_char {cs : List Char} (h : '$' ∉ cs) : Clean (cs.map .char) := by
  intro p hp
  obtain ⟨c, hc, rfl⟩ := List.mem_map.mp hp
  rintro rfl
  exact h hc

theorem Clean.fill (hps : Clean ps) (hv : '$' ∉ value) : Clean (fill name value ps) := by
  intro p hp
  obtain ⟨q, hq, hp⟩ := List.mem_flatMap.mp hp
  split at hp
  · exact clean_map_char hv p hp
  · obtain rfl := List.mem_singleton.mp hp
    exact hps p hq

/-- The names in front of the first closing braces are the same. -/
theorem eq_of_closed_name {xs ys rest : List Char} (hx : '}' ∉ xs) (hy : '}' ∉ ys)
    (h : xs ++ ['}'] <+: ys ++ '}' :: rest) : xs = ys := by
  induction xs generalizing ys with
  | nil =>
    cases ys with
    | nil => rfl
    | cons y ys =>
      obtain ⟨rfl, -⟩ := List.cons_prefix_cons.mp h
      exact absurd List.mem_cons_self hy
  | cons x xs ih =>
    cases ys with
    | nil =>
      obtain ⟨rfl, -⟩ := List.cons_prefix_cons.mp h
      exact absurd List.mem_cons_self hx
    | cons y ys =>
      obtain ⟨rfl, htail⟩ := List.cons_prefix_cons.mp h
      rw [ih (List.not_mem_of_not_mem_cons hx) (List.not_mem_of_not_mem_cons hy) htail]

/-- A replacement passes over the tokens of other names. -/
theorem replaceAll_tokenChars_append {other : List Char} (hn : '}' ∉ name)
    (ho : '$' ∉ other ∧ '}' ∉ other) (hne : other ≠ name) (rest : List Char) :
    Text.replaceAll (tokenChars name) value (tokenChars other ++ rest) =
      tokenChars other ++ Text.replaceAll (tokenChars name) value rest := by
  have hpre : ¬ '$' :: ('{' :: name ++ ['}']) <+: '$' :: ('{' :: other ++ '}' :: rest) := by
    intro h
    have h := (List.cons_prefix_cons.mp (List.cons_prefix_cons.mp h).2).2
    exact hne (eq_of_closed_name hn ho.2 h).symm
  have hplain : '$' ∉ '{' :: other ++ ['}'] := by simpa using ho.1
  have hshape : tokenChars other ++ rest = '$' :: ('{' :: other ++ '}' :: rest) := by
    simp [tokenChars]
  have hrest : '{' :: other ++ '}' :: rest = ('{' :: other ++ ['}']) ++ rest := by simp
  rw [hshape, tokenChars, List.cons_append, Text.replaceAll_cons,
    Text.replaceFrom_cons_of_no_match hpre, ← Text.replaceAll_cons, hrest,
    Text.replaceAll_append_of_not_mem hplain]
  simp [tokenChars]

/-- A text without a dollar sign has no tokens to replace. -/
theorem replaceAll_tokenChars_of_no_dollar {cs : List Char} (h : '$' ∉ cs) :
    Text.replaceAll (tokenChars name) value cs = cs :=
  Text.replaceAll_of_not_mem h

/-- A text without a closing brace stays behind the replacement of a token. -/
theorem replaceAll_tokenChars_append_right {xs ys : List Char} (h : '}' ∉ ys) :
    Text.replaceAll (tokenChars name) value (xs ++ ys) =
      Text.replaceAll (tokenChars name) value xs ++ ys :=
  Text.replaceAll_append_right h

/-- **Replacing the text of a token fills it**, where every dollar sign begins a token. -/
theorem replaceAll_textOf (hn : '}' ∉ name) (value : List Char) (hps : Clean ps) :
    Text.replaceAll (tokenChars name) value (textOf ps) = textOf (fill name value ps) := by
  induction ps with
  | nil => rfl
  | cons p ps ih =>
    obtain ⟨hp, hps⟩ := List.forall_mem_cons.mp hps
    rw [textOf_cons, fill_cons, textOf_append, ← ih hps]
    cases p with
    | char c =>
      have hc : '$' ∉ [c] := fun h => hp (List.mem_singleton.mp h).symm
      rw [if_neg nofun]
      exact Text.replaceAll_append_of_not_mem hc (textOf ps)
    | token other =>
      by_cases h : other = name
      · subst h
        rw [if_pos rfl, textOf_map_char]
        exact Text.replaceAll_append_self '$' ('{' :: other ++ ['}']) value (textOf ps)
      · have hself : textOf [.token other] = tokenChars other := List.append_nil _
        rw [if_neg fun he => h (Piece.token.inj he), hself]
        exact replaceAll_tokenChars_append hn hp h (textOf ps)

/-! ### Telling values apart -/

/-- Two ways to write pieces that differ at one piece only write the same text exactly when it does
not occur, or is written the same. -/
theorem flatMap_eq_flatMap_iff {f g : Piece → List Char} {q : Piece} (h : ∀ p, p ≠ q → f p = g p)
    (ps : List Piece) : ps.flatMap f = ps.flatMap g ↔ q ∉ ps ∨ f q = g q := by
  have hlength : (ps.flatMap f).length + ps.count q * (g q).length =
      (ps.flatMap g).length + ps.count q * (f q).length := by
    induction ps with
    | nil => simp
    | cons p ps ih =>
      rw [List.flatMap_cons, List.flatMap_cons, List.length_append, List.length_append]
      by_cases hp : p = q
      · subst hp
        rw [List.count_cons_self, Nat.add_mul, Nat.add_mul]
        omega
      · rw [List.count_cons_of_ne hp, h p hp]
        omega
  constructor
  · intro heq
    by_contra! hno
    obtain ⟨hq, hne⟩ := hno
    -- The texts are equally long, so that the piece is, and then its places can be compared.
    have hqlen : (f q).length = (g q).length := by
      have := List.count_pos_iff.mpr hq
      rw [heq] at hlength
      exact (Nat.eq_of_mul_eq_mul_left this (Nat.add_left_cancel hlength)).symm
    clear hlength
    induction ps with
    | nil => exact absurd hq List.not_mem_nil
    | cons p ps ih =>
      rw [List.flatMap_cons, List.flatMap_cons] at heq
      have hplen : (f p).length = (g p).length := by
        by_cases hp : p = q
        · rw [hp, hqlen]
        · rw [h p hp]
      obtain ⟨hp, heq⟩ := List.append_inj heq hplen
      rcases List.mem_cons.mp hq with rfl | hq
      · exact hne hp
      · exact ih heq hq
  · rintro (hq | hfg)
    · exact List.flatMap_congr fun p hp => h p fun he => hq (he ▸ hp)
    · exact List.flatMap_congr fun p _ => by
        by_cases hp : p = q
        · rw [hp, hfg]
        · exact h p hp

end Placeholder

end ApiAssembly
