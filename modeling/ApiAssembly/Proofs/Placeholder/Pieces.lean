import ApiAssembly.Proofs.Placeholder.Defaults
import ApiAssembly.Proofs.Placeholder.Filling
import ApiAssembly.Proofs.Placeholder.Passes
import Mathlib.Logic.Function.Iterate

/-!
# Proofs — Placeholder — expanding a text piece by piece

Tokens can come together from what values bring in: one value may open a brace that the text behind
it closes.  Where every dollar sign begins a token, in a text and in all that comes into it, no such
thing happens (`Expander.KeepsTo`).  Then cutting and writing are inverse (`pieces_textOf`), each
round of expansion goes over the pieces one by one, and so does expansion as a whole
(`Expander.expandChars_textOf`): what comes of a token does not depend on the text around it.
-/

namespace ApiAssembly

namespace Placeholder

variable {ps qs : List Piece} {cs : List Char}

/-! ### Cutting and writing -/

/-- Pieces that a text is cut into: every dollar sign begins a token, and tokens have names. -/
structure Cut (ps : List Piece) : Prop where
  clean : Clean ps
  named : .token [] ∉ ps

/-- An empty name makes no token. -/
theorem token_nil_not_mem_piecesFrom (s : Scan) (cs : List Char) :
    .token [] ∉ piecesFrom s cs := by
  induction cs generalizing s with
  | nil => simp [piecesFrom]
  | cons c cs ih =>
    cases s with
    | outside => by_cases hc : c = '$' <;> simp [piecesFrom, hc, ih]
    | dollar =>
      by_cases hc : c = '{'
      · simp [piecesFrom, hc, ih]
      · by_cases hd : c = '$' <;> simp [piecesFrom, hc, hd, ih]
    | name read =>
      by_cases hc : c = '}'
      · cases read <;> simp [piecesFrom, hc, ih]
      · simp [piecesFrom, hc, ih]

/-- Pieces that each come from a cut text without a stray dollar sign are cut. -/
theorem cut_of_forall_mem (h : ∀ p ∈ ps, ∃ cs, p ∈ pieces cs ∧ Clean (pieces cs)) : Cut ps where
  clean p hp :=
    have ⟨_, hcs, hclean⟩ := h p hp
    hclean p hcs
  named hp :=
    have ⟨cs, hcs, _⟩ := h _ hp
    token_nil_not_mem_piecesFrom .outside cs hcs

/-- Writing pieces and cutting the text again gives the pieces. -/
theorem pieces_textOf (h : Cut ps) : pieces (textOf ps) = ps := by
  induction ps with
  | nil => rfl
  | cons p ps ih =>
    obtain ⟨hp, hclean⟩ := List.forall_mem_cons.mp h.clean
    obtain ⟨hname, hnamed⟩ := List.ne_and_not_mem_of_not_mem_cons h.named
    have ih := ih ⟨hclean, hnamed⟩
    cases p with
    | char c =>
      have hc : c ≠ '$' := hp
      rw [textOf_cons, Piece.chars, List.singleton_append, pieces, piecesFrom, if_neg hc]
      exact congrArg (.char c :: ·) ih
    | token name =>
      have hne : [].reverse ++ name ≠ [] := fun he => hname (congrArg Piece.token he.symm)
      have hshape : textOf (.token name :: ps) = '$' :: '{' :: (name ++ '}' :: textOf ps) := by
        simp [textOf_cons, Piece.chars, tokenChars]
      rw [hshape, pieces, piecesFrom, if_pos rfl, piecesFrom, if_pos rfl,
        piecesFrom_name hp.2 hne]
      exact congrArg (.token name :: ·) ih

/-- Without a dollar sign there is no token. -/
theorem pieces_of_no_dollar (h : '$' ∉ cs) : pieces cs = cs.map .char := by
  have hcut : Cut (cs.map .char) := ⟨clean_map_char h, by simp⟩
  rw [← pieces_textOf hcut, textOf_map_char]

/-- What comes of pieces is written piece by piece. -/
theorem textOf_flatMap (f : Piece → List Piece) (ps : List Piece) :
    textOf (ps.flatMap f) = ps.flatMap fun p => textOf (f p) :=
  List.flatMap_assoc

theorem mem_tokens_of_mem_pieces {name : List Char} (h : .token name ∈ pieces cs) :
    String.ofList name ∈ tokens cs :=
  List.mem_filterMap.mpr ⟨_, h, rfl⟩

/-- A single character is no token. -/
theorem ne_tokenChars_of_char (c : Char) (name : List Char) :
    (Piece.char c).chars ≠ tokenChars name := by
  simp [Piece.chars, tokenChars]

/-- A piece that is written as a token is this token. -/
theorem chars_eq_tokenChars_iff {p : Piece} {name : List Char} :
    p.chars = tokenChars name ↔ p = .token name := by
  cases p with
  | char c => exact iff_of_false (ne_tokenChars_of_char c name) nofun
  | token other => simp [Piece.chars, tokenChars]

end Placeholder

namespace Expander

open Placeholder

variable {e : Expander} {texts : List (List Char)} {ps qs : List Piece}

/-- Texts that expansion keeps to: they have the values of aliases and of all tokens in them, and
every dollar sign in them begins a token.  An alias is a whole token. -/
structure KeepsTo (e : Expander) (texts : List (List Char)) : Prop where
  aliases : ∀ a ∈ e.aliases,
    (∃ name, a.1.toList = tokenChars name ∧ '}' ∉ name) ∧ a.2.toList ∈ texts
  values : ∀ cs ∈ texts, ∀ t ∈ tokens cs, ∀ v ∈ e.value? t, v.toList ∈ texts
  clean : ∀ cs ∈ texts, Clean (pieces cs)

/-- Pieces that are found in some of the texts. -/
def FoundIn (texts : List (List Char)) (ps : List Piece) : Prop :=
  ∀ p ∈ ps, ∃ cs ∈ texts, p ∈ pieces cs

theorem foundIn_pieces {cs : List Char} (h : cs ∈ texts) : FoundIn texts (pieces cs) :=
  fun _ hp => ⟨cs, h, hp⟩

/-- Pieces that are found in the texts are cut, since no text has a stray dollar sign. -/
theorem FoundIn.cut (h : FoundIn texts ps) (he : e.KeepsTo texts) : Cut ps :=
  cut_of_forall_mem fun p hp =>
    have ⟨cs, hcs, hp⟩ := h p hp
    ⟨cs, hp, he.clean cs hcs⟩

/-- What comes of pieces is found in the texts when it is for each piece. -/
theorem FoundIn.flatMap {f : Piece → List Piece} (h : FoundIn texts ps)
    (hf : ∀ p, FoundIn texts [p] → FoundIn texts (f p)) : FoundIn texts (ps.flatMap f) := by
  intro q hq
  obtain ⟨p, hp, hq⟩ := List.mem_flatMap.mp hq
  refine hf p (fun p' hp' => ?_) q hq
  obtain rfl := List.mem_singleton.mp hp'
  exact h p' hp

/-! ### Aliases -/

/-- What an alias makes of a piece. -/
def replacedBy (a : String × String) (p : Piece) : List Piece :=
  if p.chars = a.1.toList then pieces a.2.toList else [p]

/-- Pieces with the values of the aliases put into them, one alias after the other. -/
def aliased (e : Expander) (ps : List Piece) : List Piece :=
  e.aliases.foldl (fun ps a => ps.flatMap (replacedBy a)) ps

theorem FoundIn.replacedBy {a : String × String} (ha : a.2.toList ∈ texts) (p : Piece)
    (hp : FoundIn texts [p]) : FoundIn texts (replacedBy a p) := by
  rw [Expander.replacedBy]
  split
  · exact foundIn_pieces ha
  · exact hp

/-- Replacing an alias in a text is replacing it among the pieces. -/
theorem replaceAll_textOf_of_alias {a : String × String} {name : List Char}
    (ha : a.1.toList = tokenChars name) (hname : '}' ∉ name) (hps : Clean ps) :
    Text.replaceAll a.1.toList a.2.toList (textOf ps) = textOf (ps.flatMap (replacedBy a)) := by
  rw [ha, replaceAll_textOf hname _ hps, fill, textOf_flatMap, textOf_flatMap]
  refine List.flatMap_congr fun p _ => ?_
  rw [replacedBy, ha]
  by_cases h : p = .token name
  · rw [if_pos h, if_pos (chars_eq_tokenChars_iff.mpr h), textOf_map_char, textOf_pieces]
  · rw [if_neg h, if_neg (mt chars_eq_tokenChars_iff.mp h)]

/-- So it is for all aliases, one after the other. -/
theorem foldl_replaceAll_textOf (he : e.KeepsTo texts) {aliases : List (String × String)}
    (ha : aliases ⊆ e.aliases) (hps : FoundIn texts ps) :
    let replaced := aliases.foldl (fun ps a => ps.flatMap (replacedBy a)) ps
    aliases.foldl (fun cs a => Text.replaceAll a.1.toList a.2.toList cs) (textOf ps) =
      textOf replaced ∧ FoundIn texts replaced := by
  induction aliases generalizing ps with
  | nil => exact ⟨rfl, hps⟩
  | cons a aliases ih =>
    obtain ⟨ha, haliases⟩ := List.cons_subset.mp ha
    obtain ⟨⟨name, hname, hclosed⟩, hvalue⟩ := he.aliases a ha
    rw [List.foldl_cons, List.foldl_cons,
      replaceAll_textOf_of_alias hname hclosed (hps.cut he).clean]
    exact ih haliases (hps.flatMap fun p => FoundIn.replacedBy hvalue p)

/-! ### Values -/

/-- What a pass makes of a piece. -/
def passPiece (e : Expander) : Piece → List Piece
  | .char c     => [.char c]
  | .token name =>
    match e.value? (String.ofList name) with
    | some v => pieces v.toList
    | none   => [.token name]

/-- The values of tokens are among the texts. -/
theorem FoundIn.passPiece (he : e.KeepsTo texts) (p : Piece) (hp : FoundIn texts [p]) :
    FoundIn texts (e.passPiece p) := by
  cases p with
  | char c => exact hp
  | token name =>
    rw [Expander.passPiece]
    split
    case h_1 v hv =>
      obtain ⟨cs, hcs, hmem⟩ := hp _ (List.mem_singleton_self _)
      exact foundIn_pieces (he.values cs hcs _ (mem_tokens_of_mem_pieces hmem) v hv)
    case h_2 => exact hp

/-- A pass over a text is a pass over its pieces. -/
theorem substitute_textOf (e : Expander) (hps : Cut ps) :
    substitute e.value? (textOf ps) = textOf (ps.flatMap e.passPiece) := by
  rw [substitute, pieces_textOf hps, textOf_flatMap]
  refine List.flatMap_congr fun p _ => ?_
  cases p with
  | char c => rfl
  | token name =>
    rw [passPiece]
    cases hvalue : e.value? (String.ofList name) with
    | some v => simp [hvalue, textOf_pieces]
    | none => simp [hvalue, textOf, Piece.chars]

/-- A pass leaves pieces without a token to replace. -/
theorem flatMap_passPiece_of_none
    (h : ∀ name, .token name ∈ ps → e.value? (String.ofList name) = none) :
    ps.flatMap e.passPiece = ps := by
  refine (List.flatMap_congr fun p hp => ?_).trans (List.flatMap_singleton' ps)
  cases p with
  | char c => rfl
  | token name => rw [passPiece, h name hp]

/-- The passes over a text go over its pieces. -/
theorem passes_textOf (he : e.KeepsTo texts) (hps : FoundIn texts ps) (n : Nat) :
    let passed := (fun ps => ps.flatMap e.passPiece)^[n] ps
    e.passes n (textOf ps) = textOf passed ∧ FoundIn texts passed := by
  induction n generalizing ps with
  | zero => exact ⟨rfl, hps⟩
  | succ n ih =>
    have hcut := hps.cut he
    obtain ⟨htext, hfound⟩ := ih (hps.flatMap (FoundIn.passPiece he))
    rw [Function.iterate_succ_apply, passes]
    refine ⟨?_, hfound⟩
    split
    case isTrue => rw [substitute_textOf e hcut, htext]
    case isFalse hnone =>
      -- No pass changes anything from here on.
      have hstill : ps.flatMap e.passPiece = ps := by
        refine flatMap_passPiece_of_none fun name hname => ?_
        rw [← pieces_textOf hcut] at hname
        by_contra hsome
        exact hnone (List.any_eq_true.mpr
          ⟨_, mem_tokens_of_mem_pieces hname, Option.isSome_iff_ne_none.mpr hsome⟩)
      rw [hstill, Function.iterate_fixed hstill]

/-! ### Expansion -/

/-- Pieces expanded: the aliases, and then all passes. -/
def expandPieces (e : Expander) (ps : List Piece) : List Piece :=
  (fun ps => ps.flatMap e.passPiece)^[passLimit] (e.aliased ps)

theorem aliased_append (e : Expander) (ps qs : List Piece) :
    e.aliased (ps ++ qs) = e.aliased ps ++ e.aliased qs := by
  rw [aliased, aliased, aliased]
  induction e.aliases generalizing ps qs with
  | nil => rfl
  | cons a aliases ih =>
    rw [List.foldl_cons, List.foldl_cons, List.foldl_cons, List.flatMap_append, ih]

/-- What comes of pieces does not depend on those around them. -/
theorem expandPieces_append (e : Expander) (ps qs : List Piece) :
    e.expandPieces (ps ++ qs) = e.expandPieces ps ++ e.expandPieces qs := by
  rw [expandPieces, expandPieces, expandPieces, aliased_append]
  generalize e.aliased ps = ps
  generalize e.aliased qs = qs
  induction passLimit generalizing ps qs with
  | zero => rfl
  | succ n ih =>
    rw [Function.iterate_succ_apply, Function.iterate_succ_apply, Function.iterate_succ_apply,
      List.flatMap_append, ih]

theorem aliased_singleton {p : Piece} (h : ∀ a ∈ e.aliases, p.chars ≠ a.1.toList) :
    e.aliased [p] = [p] := by
  rw [aliased]
  generalize e.aliases = aliases at h
  induction aliases with
  | nil => rfl
  | cons a aliases ih =>
    obtain ⟨ha, haliases⟩ := List.forall_mem_cons.mp h
    rw [List.foldl_cons, List.flatMap_singleton, replacedBy, if_neg ha]
    exact ih haliases

/-- A piece with neither alias nor value stays. -/
theorem expandPieces_of_still {p : Piece} (haliases : ∀ a ∈ e.aliases, p.chars ≠ a.1.toList)
    (hvalue : e.passPiece p = [p]) : e.expandPieces [p] = [p] := by
  rw [expandPieces, aliased_singleton haliases]
  exact Function.iterate_fixed ((List.flatMap_singleton _ p).trans hvalue) passLimit

/-- A token with a value that holds no token is written as the value. -/
theorem expandPieces_of_value {name value : String}
    (haliases : ∀ a ∈ e.aliases, (Piece.token name.toList).chars ≠ a.1.toList)
    (hvalue : e.value? name = some value) (hplain : '$' ∉ value.toList) :
    e.expandPieces [.token name.toList] = value.toList.map .char := by
  have hpass : [Piece.token name.toList].flatMap e.passPiece = value.toList.map .char := by
    rw [List.flatMap_singleton, passPiece, String.ofList_toList, hvalue]
    exact pieces_of_no_dollar hplain
  have hstill : (value.toList.map Piece.char).flatMap e.passPiece = value.toList.map .char :=
    flatMap_passPiece_of_none fun name hname => by simp at hname
  rw [expandPieces, aliased_singleton haliases, passLimit, Function.iterate_succ_apply, hpass]
  exact Function.iterate_fixed hstill 15

/-- A character stays. -/
theorem expandPieces_char (he : e.KeepsTo texts) (c : Char) :
    e.expandPieces [.char c] = [.char c] := by
  refine expandPieces_of_still (fun a ha h => ?_) rfl
  obtain ⟨⟨name, hname, -⟩, -⟩ := he.aliases a ha
  exact ne_tokenChars_of_char c name (h.trans hname)

theorem expandPieces_eq_flatMap (e : Expander) (ps : List Piece) :
    e.expandPieces ps = ps.flatMap fun p => e.expandPieces [p] := by
  induction ps with
  | nil =>
    have hnil : e.expandPieces [] ++ e.expandPieces [] = e.expandPieces [] :=
      (e.expandPieces_append [] []).symm
    simpa using hnil
  | cons p ps ih => rw [← List.singleton_append, expandPieces_append, ih, List.flatMap_append,
      List.flatMap_singleton]

/-- **Expanding a text expands its pieces one by one.** -/
theorem expandChars_textOf (he : e.KeepsTo texts) (hps : FoundIn texts ps) :
    e.expandChars (textOf ps) = textOf (e.expandPieces ps) ∧
      FoundIn texts (e.expandPieces ps) := by
  obtain ⟨haliases, hfound⟩ := foldl_replaceAll_textOf he (List.Subset.refl _) hps
  obtain ⟨hpasses, hfound⟩ := passes_textOf he hfound passLimit
  refine ⟨?_, hfound⟩
  rw [expandChars]
  split
  case isTrue => rw [replaceAliases, haliases, hpasses]; rfl
  case isFalse hopens =>
    -- All pieces are characters.
    have hplain : ∀ p ∈ ps, e.expandPieces [p] = [p] := by
      intro p hp
      cases p with
      | char c => exact expandPieces_char he c
      | token name =>
        refine absurd (opensToken_tokenChars name) fun htoken => hopens ?_
        rw [opensToken, Text.occurs_iff] at htoken ⊢
        exact htoken.trans (List.infix_of_mem_flatten (List.mem_map_of_mem hp))
    rw [expandPieces_eq_flatMap, List.flatMap_congr hplain, List.flatMap_singleton']

/-! ### A token in its place -/

/-- Every token of a name is written as one value, between what is written of the text in front of
it and of the text behind it. -/
def PutsInPlace (write : List Char → List Char) (name value : String) (text : List Char) : Prop :=
  ∀ before after, pieces text = before ++ .token name.toList :: after →
    write text = write (textOf before) ++ value.toList ++ write (textOf after)

/-- Texts are expanded, and then written piece by piece, with their characters as they are. -/
structure WritesBy (e : Expander) (texts : List (List Char)) (write : List Char → List Char)
    (piece : Piece → List Char) : Prop where
  text : ∀ ps, FoundIn texts ps → write (textOf ps) = (e.expandPieces ps).flatMap piece
  char : ∀ c, piece (.char c) = [c]

variable {write : List Char → List Char} {piece : Piece → List Char} {name value : String}
  {cs : List Char}

/-- A token by itself is written as what its piece expands to. -/
theorem WritesBy.write_tokenChars (h : e.WritesBy texts write piece) (hcs : cs ∈ texts)
    (hname : name ∈ tokens cs) :
    write (tokenChars name.toList) = (e.expandPieces [.token name.toList]).flatMap piece := by
  have hfound : FoundIn texts [.token name.toList] := fun p hp =>
    ⟨cs, hcs, List.mem_singleton.mp hp ▸ mem_pieces_of_mem_tokens hname⟩
  have htext : textOf [.token name.toList] = tokenChars name.toList :=
    List.append_nil _
  rw [← htext, h.text _ hfound]

/-- **A token is put in its place by a value exactly when it is written so by itself**, or the text
does not have it. -/
theorem WritesBy.putsInPlace_iff (h : e.WritesBy texts write piece) (hcs : cs ∈ texts) :
    PutsInPlace write name value cs ↔
      (name ∈ tokens cs → write (tokenChars name.toList) = value.toList) := by
  have hpart {ps : List Piece} (hps : ps ⊆ pieces cs) :
      write (textOf ps) = (e.expandPieces ps).flatMap piece :=
    h.text ps fun p hp => ⟨cs, hcs, hps hp⟩
  have hwrite {before after : List Piece}
      (hpieces : pieces cs = before ++ .token name.toList :: after) :
      write cs = write (textOf before) ++
        (e.expandPieces [.token name.toList]).flatMap piece ++ write (textOf after) := by
    have hwhole := hpart (List.Subset.refl (pieces cs))
    have hbefore : before ⊆ pieces cs := hpieces ▸ List.subset_append_left _ _
    have hafter : after ⊆ pieces cs :=
      hpieces ▸ fun p hp => List.mem_append_right _ (List.mem_cons_of_mem _ hp)
    rw [hpart hbefore, hpart hafter, ← List.flatMap_append, ← List.flatMap_append,
      ← expandPieces_append, ← expandPieces_append, List.append_assoc, List.singleton_append,
      ← hpieces, ← hwhole, textOf_pieces]
  constructor
  · intro hput hname
    obtain ⟨before, after, hpieces⟩ := List.append_of_mem (mem_pieces_of_mem_tokens hname)
    have heq := (hwrite hpieces).symm.trans (hput before after hpieces)
    rw [h.write_tokenChars hcs hname]
    exact List.append_cancel_left (List.append_cancel_right heq)
  · intro htoken before after hpieces
    have hname : name ∈ tokens cs := by
      have := mem_tokens_of_mem_pieces (hpieces ▸ List.mem_append_right _ List.mem_cons_self)
      rwa [String.ofList_toList] at this
    rw [hwrite hpieces, ← h.write_tokenChars hcs hname, htoken hname]

/-- The settings know nothing of a token: no alias is called like it, and no layer has a value. -/
def Leaves (e : Expander) (name : String) : Prop :=
  (∀ a ∈ e.aliases, a.1 ≠ tokenText name) ∧ e.value? name = none

/-- The settings answer for a token with a text that stands as it is: no alias is called like it,
and the first layer with a value has this one, without a dollar sign. -/
def Answers (e : Expander) (name value : String) : Prop :=
  (∀ a ∈ e.aliases, a.1 ≠ tokenText name) ∧ e.value? name = some value ∧ '$' ∉ value.toList

theorem chars_ne_of_no_alias (h : ∀ a ∈ e.aliases, a.1 ≠ tokenText name) :
    ∀ a ∈ e.aliases, (Piece.token name.toList).chars ≠ a.1.toList := by
  intro a ha hchars
  exact h a ha (String.toList_inj.mp (hchars.symm.trans String.toList_ofList.symm))

/-- A token that the settings leave alone is written as a piece. -/
theorem WritesBy.write_tokenChars_of_leaves (h : e.WritesBy texts write piece) (hcs : cs ∈ texts)
    (hname : name ∈ tokens cs) (hleaves : e.Leaves name) :
    write (tokenChars name.toList) = piece (.token name.toList) := by
  have hvalue : e.passPiece (.token name.toList) = [.token name.toList] := by
    rw [passPiece, String.ofList_toList, hleaves.2]
  rw [h.write_tokenChars hcs hname, expandPieces_of_still (chars_ne_of_no_alias hleaves.1) hvalue,
    List.flatMap_singleton]

/-- A token that the settings answer for is written as they say. -/
theorem WritesBy.write_tokenChars_of_answers (h : e.WritesBy texts write piece) (hcs : cs ∈ texts)
    (hname : name ∈ tokens cs) (hanswers : e.Answers name value) :
    write (tokenChars name.toList) = value.toList := by
  obtain ⟨haliases, hvalue, hplain⟩ := hanswers
  rw [h.write_tokenChars hcs hname,
    expandPieces_of_value (chars_ne_of_no_alias haliases) hvalue hplain, List.flatMap_map]
  exact (List.flatMap_congr fun c _ => h.char c).trans (List.flatMap_singleton' _)

end Expander

end ApiAssembly
