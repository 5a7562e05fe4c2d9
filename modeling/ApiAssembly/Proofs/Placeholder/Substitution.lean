import ApiAssembly.Proofs.Keyed.Distinct
import ApiAssembly.Proofs.Placeholder.Pieces

/-!
# Proofs — Placeholder — expansion as recursive substitution

`Placeholder.Expands` is substitution as one would define it, without passes and without a bound: in
the place of a token stands what its value expands to, and a token without a value stays.  A pass
does not change what a text expands to (`expands_flatMap_passPiece`), and when the values of the
tokens are followed for so many levels and nothing is left to replace (`EndsWithin`), so many passes
leave only tokens without a value (`EndsWithin.iterate`).

So a text whose values end within the sixteen passes that are made is expanded as recursive
substitution says (`Expander.expand_iff_expands`), provided that every dollar sign begins a token,
in the text and in the values (`Tokenized`).
-/

namespace ApiAssembly

namespace Placeholder

/-- Every dollar sign begins a complete token, whose name is not empty and has neither a dollar sign
nor a closing brace. -/
def Tokenized (cs : List Char) : Prop :=
  ∀ before after, cs = before ++ '$' :: after → ∃ name rest, after = '{' :: name ++ '}' :: rest ∧
    name ≠ [] ∧ '$' ∉ name ∧ '}' ∉ name

/-- The text with the expansion of its value in the place of each token that has one. -/
inductive Expands (value? : String → Option String) : List Piece → List Char → Prop
  | nil : Expands value? [] []
  | char {c : Char} {ps : List Piece} {ds : List Char} (h : Expands value? ps ds) :
      Expands value? (.char c :: ps) (c :: ds)
  | kept {name : List Char} {ps : List Piece} {ds : List Char}
      (hnone : value? (String.ofList name) = none) (h : Expands value? ps ds) :
      Expands value? (.token name :: ps) (tokenChars name ++ ds)
  | value {name : List Char} {v : String} {ps : List Piece} {vs ds : List Char}
      (hvalue : value? (String.ofList name) = some v) (hv : Expands value? (pieces v.toList) vs)
      (h : Expands value? ps ds) : Expands value? (.token name :: ps) (vs ++ ds)

/-- Following tokens through their values, one comes in so many levels to texts whose tokens have no
values. -/
def EndsWithin (value? : String → Option String) : Nat → List String → Prop
  | 0,     ts => ∀ t ∈ ts, value? t = none
  | n + 1, ts => ∀ t ∈ ts, ∀ v ∈ value? t, EndsWithin value? n (tokens v.toList)

instance EndsWithin.decidable (value? : String → Option String) :
    (n : Nat) → DecidablePred (EndsWithin value? n)
  | 0,     ts => inferInstanceAs (Decidable (∀ t ∈ ts, value? t = none))
  | n + 1, ts =>
    have (v : String) : Decidable (EndsWithin value? n (tokens v.toList)) :=
      EndsWithin.decidable value? n _
    inferInstanceAs (Decidable (∀ t ∈ ts, ∀ v ∈ value? t, EndsWithin value? n (tokens v.toList)))

variable {value? : String → Option String} {cs ds : List Char} {ps qs : List Piece} {c : Char}
  {n : Nat} {ts us : List String}

/-! ### Texts of tokens -/

/-- The rest of a text has no stray dollar sign if the whole has none. -/
theorem Tokenized.tail (h : Tokenized (c :: cs)) : Tokenized cs := fun before after hcs =>
  h (c :: before) after (congrArg (c :: ·) hcs)

/-- Of an appended text the part behind is tokenized. -/
theorem Tokenized.right (h : Tokenized (cs ++ ds)) : Tokenized ds := by
  induction cs with
  | nil => exact h
  | cons c cs ih => exact ih h.tail

/-- A text without a stray dollar sign is cut into tokens and other characters. -/
theorem Tokenized.clean (h : Tokenized cs) : Clean (pieces cs) := by
  -- The text gets shorter by a character or by a whole token.
  induction hn : cs.length using Nat.strongRecOn generalizing cs with
  | ind n ih =>
    cases cs with
    | nil => exact List.forall_mem_nil _
    | cons c cs =>
      by_cases hc : c = '$'
      · subst hc
        obtain ⟨name, rest, rfl, hne, hdollar, hbrace⟩ := h [] cs rfl
        have hname : [].reverse ++ name ≠ [] := hne
        have hpieces : pieces ('$' :: ('{' :: name ++ '}' :: rest)) =
            .token name :: pieces rest := by
          rw [pieces, piecesFrom, if_pos rfl, List.cons_append, piecesFrom, if_pos rfl]
          exact piecesFrom_name hbrace hname rest
        have hrest : Tokenized (('$' :: '{' :: name ++ ['}']) ++ rest) := by simpa using h
        rw [hpieces]
        refine List.forall_mem_cons.mpr ⟨⟨hdollar, hbrace⟩, ih _ ?_ hrest.right rfl⟩
        simp only [List.length_cons, List.length_append] at hn
        omega
      · rw [pieces, piecesFrom, if_neg hc]
        exact List.forall_mem_cons.mpr ⟨hc, ih _ (hn ▸ Nat.lt_succ_self _) h.tail rfl⟩

/-- No token begins in a text without a dollar sign. -/
theorem Tokenized.append_left (h : Tokenized ds) (hcs : '$' ∉ cs) : Tokenized (cs ++ ds) := by
  induction cs with
  | nil => exact h
  | cons c cs ih =>
    obtain ⟨hc, hcs⟩ := List.ne_and_not_mem_of_not_mem_cons hcs
    rintro (_ | ⟨d, before⟩) after heq
    · exact absurd (List.cons.inj heq).1.symm hc
    · exact ih hcs before after (List.cons.inj heq).2

/-- A token may be put in front. -/
theorem Tokenized.cons_token {name : List Char} (h : Tokenized ds) (hne : name ≠ [])
    (hdollar : '$' ∉ name) (hbrace : '}' ∉ name) : Tokenized (tokenChars name ++ ds) := by
  have hshape : tokenChars name ++ ds = '$' :: (('{' :: name ++ ['}']) ++ ds) := rfl
  rw [hshape]
  rintro (_ | ⟨d, before⟩) after heq
  · exact ⟨name, ds, by simpa using (List.cons.inj heq).2.symm, hne, hdollar, hbrace⟩
  · exact h.append_left (by simpa using hdollar) before after (List.cons.inj heq).2

theorem tokenized_textOf (h : Cut ps) : Tokenized (textOf ps) := by
  induction ps with
  | nil =>
    exact fun before _ hnil => absurd hnil.symm (List.append_ne_nil_of_right_ne_nil before nofun)
  | cons p ps ih =>
    obtain ⟨hp, hclean⟩ := List.forall_mem_cons.mp h.clean
    obtain ⟨hname, hnamed⟩ := List.ne_and_not_mem_of_not_mem_cons h.named
    have hps := ih ⟨hclean, hnamed⟩
    rw [textOf_cons]
    cases p with
    | char c => exact hps.append_left fun hc => hp (List.mem_singleton.mp hc).symm
    | token name => exact hps.cons_token (fun he => hname (congrArg Piece.token he.symm)) hp.1 hp.2

/-- The scan finds out whether every dollar sign begins a token. -/
theorem tokenized_iff_clean : Tokenized cs ↔ Clean (pieces cs) := by
  refine ⟨Tokenized.clean, fun h => ?_⟩
  rw [← textOf_pieces cs]
  exact tokenized_textOf ⟨h, token_nil_not_mem_piecesFrom .outside cs⟩

instance : DecidablePred Tokenized := fun _ => decidable_of_iff _ tokenized_iff_clean.symm

/-! ### Recursive substitution -/

/-- What stands in a row is substituted part by part. -/
theorem expands_append :
    Expands value? (ps ++ qs) ds ↔
      ∃ front back, Expands value? ps front ∧ Expands value? qs back ∧ front ++ back = ds := by
  constructor
  · intro h
    induction ps generalizing ds with
    | nil => exact ⟨[], ds, .nil, h, rfl⟩
    | cons p ps ih =>
      cases h with
      | char h =>
        obtain ⟨front, back, hfront, hback, rfl⟩ := ih h
        exact ⟨_, back, .char hfront, hback, rfl⟩
      | kept hnone h =>
        obtain ⟨front, back, hfront, hback, rfl⟩ := ih h
        exact ⟨_, back, .kept hnone hfront, hback, List.append_assoc _ _ _⟩
      | value hvalue hv h =>
        obtain ⟨front, back, hfront, hback, rfl⟩ := ih h
        exact ⟨_, back, .value hvalue hv hfront, hback, List.append_assoc _ _ _⟩
  · rintro ⟨front, back, hfront, hback, rfl⟩
    induction hfront with
    | nil => exact hback
    | char _ ih => exact .char ih
    | kept hnone _ ih =>
      rw [List.append_assoc]
      exact .kept hnone ih
    | value hvalue hv _ _ ih =>
      rw [List.append_assoc]
      exact .value hvalue hv ih

/-- Without a token that has a value, the text expands to itself. -/
theorem expands_iff_of_none
    (hnone : ∀ name, .token name ∈ ps → value? (String.ofList name) = none) :
    Expands value? ps ds ↔ textOf ps = ds := by
  induction ps generalizing ds with
  | nil =>
    constructor
    · rintro ⟨⟩
      rfl
    · rintro rfl
      exact .nil
  | cons p ps ih =>
    have ih (ds : List Char) : Expands value? ps ds ↔ textOf ps = ds :=
      ih fun name hname => hnone name (List.mem_cons_of_mem _ hname)
    rw [textOf_cons]
    constructor
    · intro h
      cases h with
      | char h => rw [(ih _).mp h]; rfl
      | kept _ h => rw [(ih _).mp h]; rfl
      | value hvalue => rw [hnone _ List.mem_cons_self] at hvalue; cases hvalue
    · rintro rfl
      cases p with
      | char c => exact .char ((ih _).mpr rfl)
      | token name => exact .kept (hnone name List.mem_cons_self) ((ih _).mpr rfl)

/-! ### Levels -/

/-- Fewer tokens end as soon. -/
theorem EndsWithin.of_subset (h : EndsWithin value? n ts) (hsub : us ⊆ ts) :
    EndsWithin value? n us := by
  cases n with
  | zero => exact fun t ht => h t (hsub ht)
  | succ n => exact fun t ht => h t (hsub ht)

/-- Tokens end as soon as the last of them. -/
theorem endsWithin_of_forall (h : ∀ t ∈ ts, EndsWithin value? n [t]) : EndsWithin value? n ts := by
  cases n with
  | zero => exact fun t ht => h t ht t (List.mem_singleton_self t)
  | succ n => exact fun t ht => h t ht t (List.mem_singleton_self t)

/-- There is nothing to follow where no token has a value. -/
theorem endsWithin_of_none (h : ∀ t ∈ ts, value? t = none) (n : Nat) : EndsWithin value? n ts := by
  cases n with
  | zero => exact h
  | succ n =>
    intro t ht v hv
    cases (h t ht).symm.trans hv

end Placeholder

namespace Layer

variable {l : Layer} {token value : String}

/-- The properties that a layer has as they stand. -/
def stored : Layer → Keyed String
  | .system m      => m
  | .file m        => m
  | .environment _ => []

/-- A layer of properties which are all tokenized.  The environment is none, for it changes what it
has under its keys. -/
def IsTokenized : Layer → Prop
  | .system m      => ∀ entry ∈ m, Placeholder.Tokenized entry.2.toList
  | .file m        => ∀ entry ∈ m, Placeholder.Tokenized entry.2.toList
  | .environment _ => False

theorem IsTokenized.resolve?_eq (h : l.IsTokenized) (token : String) :
    l.resolve? token = l.get? token := by
  cases l with
  | system m => rfl
  | file m => rfl
  | environment e => exact h.elim

theorem IsTokenized.tokenized (h : l.IsTokenized) :
    ∀ entry ∈ l.stored, Placeholder.Tokenized entry.2.toList := by
  cases l with
  | system m => exact h
  | file m => exact h
  | environment e => exact h.elim

/-- What a layer answers is one of its values. -/
theorem IsTokenized.mem_stored (h : l.IsTokenized) (hvalue : l.resolve? token = some value) :
    (token, value) ∈ l.stored := by
  cases l with
  | system m => exact Keyed.mem_of_get? hvalue
  | file m => exact Keyed.mem_of_get? hvalue
  | environment e => exact h.elim

end Layer

namespace Expander

open Placeholder

variable {e : Expander} {ps : List Piece} {cs ds : List Char} {n : Nat}

/-! ### One pass and all passes -/

/-- One pass over a piece does not change what it expands to. -/
theorem expands_passPiece (p : Piece) :
    Expands e.value? (e.passPiece p) ds ↔ Expands e.value? [p] ds := by
  cases p with
  | char c => exact Iff.rfl
  | token name =>
    rw [passPiece]
    cases hvalue : e.value? (String.ofList name) with
    | none => exact Iff.rfl
    | some v =>
      constructor
      · intro h
        rw [← ds.append_nil]
        exact .value hvalue h .nil
      · rintro (_ | _ | ⟨hnone, _⟩ | ⟨hsome, hv, ⟨⟩⟩)
        · cases hvalue.symm.trans hnone
        · obtain rfl := Option.some.inj (hvalue.symm.trans hsome)
          rwa [List.append_nil]

/-- A pass does not change what pieces expand to. -/
theorem expands_flatMap_passPiece (ps : List Piece) :
    Expands e.value? (ps.flatMap e.passPiece) ds ↔ Expands e.value? ps ds := by
  induction ps generalizing ds with
  | nil => exact Iff.rfl
  | cons p ps ih =>
    rw [List.flatMap_cons, ← List.singleton_append, expands_append, expands_append]
    simp only [ih, expands_passPiece]

/-- Nor do many passes. -/
theorem expands_iterate_passPiece (n : Nat) (ps : List Piece) :
    Expands e.value? ((fun ps => ps.flatMap e.passPiece)^[n] ps) ds ↔ Expands e.value? ps ds := by
  induction n generalizing ps with
  | zero => exact Iff.rfl
  | succ n ih => rw [Function.iterate_succ_apply, ih, expands_flatMap_passPiece]

/-- The names of the tokens among pieces. -/
def namesIn (ps : List Piece) : List String :=
  ps.filterMap fun
    | .char _     => none
    | .token name => some (String.ofList name)

theorem mem_namesIn {t : String} :
    t ∈ namesIn ps ↔ ∃ name, .token name ∈ ps ∧ String.ofList name = t := by
  rw [namesIn, List.mem_filterMap]
  constructor
  · rintro ⟨_ | name, hmem, hname⟩
    · cases hname
    · exact ⟨name, hmem, Option.some.inj hname⟩
  · rintro ⟨name, hmem, rfl⟩
    exact ⟨.token name, hmem, rfl⟩

/-- A pass comes one level further. -/
theorem endsWithin_flatMap_passPiece (h : EndsWithin e.value? (n + 1) (namesIn ps)) :
    EndsWithin e.value? n (namesIn (ps.flatMap e.passPiece)) := by
  refine endsWithin_of_forall fun t ht => ?_
  obtain ⟨name, hmem, rfl⟩ := mem_namesIn.mp ht
  obtain ⟨p, hp, hmem⟩ := List.mem_flatMap.mp hmem
  cases p with
  | char c => cases List.mem_singleton.mp hmem
  | token token =>
    rw [passPiece] at hmem
    cases hvalue : e.value? (String.ofList token) with
    | some v =>
      rw [hvalue] at hmem
      have hv := h _ (mem_namesIn.mpr ⟨token, hp, rfl⟩) v hvalue
      refine hv.of_subset fun t ht => ?_
      obtain rfl := List.mem_singleton.mp ht
      exact mem_tokens_of_mem_pieces hmem
    | none =>
      rw [hvalue] at hmem
      obtain rfl := Piece.token.inj (List.mem_singleton.mp hmem)
      refine endsWithin_of_none (fun t ht => ?_) n
      rwa [List.mem_singleton.mp ht]

/-- Each pass takes one level away. -/
theorem endsWithin_iterate_passPiece (h : EndsWithin e.value? n (namesIn ps)) :
    EndsWithin e.value? 0 (namesIn ((fun ps => ps.flatMap e.passPiece)^[n] ps)) := by
  induction n generalizing ps with
  | zero => exact h
  | succ n ih =>
    rw [Function.iterate_succ_apply]
    exact ih (endsWithin_flatMap_passPiece h)

/-! ### Expansion -/

variable {layers : List Layer} {text : String}

/-- A token has the value that the first of the layers has under its name. -/
theorem value?_eq_firstValue? (h : ∀ l ∈ layers, l.IsTokenized) :
    ({ layers } : Expander).value? = firstValue? layers := by
  funext token
  induction layers with
  | nil => rfl
  | cons l layers ih =>
    obtain ⟨hl, hlayers⟩ := List.forall_mem_cons.mp h
    have ih := ih hlayers
    rw [value?, resolveToken?] at ih ⊢
    rw [firstValue?, List.findSome?_cons, List.findSome?_cons, hl.resolve?_eq, ih, firstValue?]

/-- A text and the values of the layers are all that expansion comes to. -/
theorem exists_keepsTo (hlayers : ∀ l ∈ layers, l.IsTokenized) (htext : Tokenized cs) :
    ∃ texts, cs ∈ texts ∧ ({ layers } : Expander).KeepsTo texts := by
  let values := layers.flatMap fun l => l.stored.map fun entry => entry.2.toList
  refine ⟨cs :: values, List.mem_cons_self, List.forall_mem_nil _, ?_, ?_⟩
  · intro _ _ token _ v hv
    obtain ⟨l, hl, hvalue⟩ := List.exists_of_findSome?_eq_some hv
    exact List.mem_cons_of_mem _ (List.mem_flatMap.mpr
      ⟨l, hl, List.mem_map_of_mem ((hlayers l hl).mem_stored hvalue)⟩)
  · refine List.forall_mem_cons.mpr ⟨htext.clean, fun vs hvs => ?_⟩
    obtain ⟨l, hl, hvs⟩ := List.mem_flatMap.mp hvs
    obtain ⟨entry, hentry, rfl⟩ := List.mem_map.mp hvs
    exact ((hlayers l hl).tokenized entry hentry).clean

/-- **Expansion is recursive substitution** where values lead to an end within sixteen levels: a
text is expanded to what stands for it when the tokens are replaced recursively, each by the value
of the first layer that has one, and the unresolved tokens are those that are left in it. -/
theorem expand_iff_expands (hlayers : ∀ l ∈ layers, l.IsTokenized) (htext : Tokenized text.toList)
    (hends : EndsWithin (firstValue? layers) 16 (tokens text.toList)) :
    let e : Expander := { layers }
    (∀ result, Expands (firstValue? layers) (pieces text.toList) result ↔
      e.expand text = String.ofList result) ∧
    e.unresolved text = tokens (e.expand text).toList := by
  intro e
  obtain ⟨texts, hmem, hkeeps⟩ := exists_keepsTo hlayers htext
  obtain ⟨hexpand, hfound⟩ := expandChars_textOf hkeeps (foundIn_pieces hmem)
  -- There are no aliases, so that expansion makes the passes and nothing else.
  have hpasses : e.expandPieces (pieces text.toList) =
      (fun ps => ps.flatMap e.passPiece)^[16] (pieces text.toList) := rfl
  rw [← value?_eq_firstValue? hlayers] at hends ⊢
  have hend := endsWithin_iterate_passPiece hends
  rw [← hpasses] at hend
  have hleft : ∀ t ∈ namesIn (e.expandPieces (pieces text.toList)), e.value? t = none := hend
  have hresult : e.expandChars text.toList = textOf (e.expandPieces (pieces text.toList)) :=
    (congrArg e.expandChars (textOf_pieces text.toList)).symm.trans hexpand
  have htokens : tokens (e.expandChars text.toList) =
      namesIn (e.expandPieces (pieces text.toList)) := by
    rw [hresult, tokens, pieces_textOf (hfound.cut hkeeps)]
    rfl
  constructor
  · intro result
    rw [← expands_iterate_passPiece 16, ← hpasses, expand, hresult, String.ofList_inj]
    exact expands_iff_of_none fun name hname => hleft _ (mem_namesIn.mpr ⟨name, hname, rfl⟩)
  · rw [expand, String.toList_ofList, unresolved]
    split
    case isTrue =>
      rw [leftIn, htokens]
      exact List.filter_eq_self.mpr fun t ht => by rw [hleft t ht, Option.isNone_none]
    case isFalse hopens =>
      have hopens := Bool.eq_false_iff.mpr hopens
      rw [expandChars_of_not_opens e hopens, tokens_of_not_opens hopens]

/-- Sixteen values one after the other, with one that comes too late and one token without any. -/
def chainOfValues : List Layer :=
  [.system [("a", "$\x7bb\x7d"), ("b", "$\x7bc\x7d"), ("c", "$\x7bd\x7d"), ("d", "$\x7be\x7d"),
    ("e", "$\x7bf\x7d"), ("f", "$\x7bg\x7d"), ("g", "$\x7bh\x7d"), ("h", "$\x7bi\x7d")],
   .file [("b", "late"), ("i", "$\x7bj\x7d"), ("j", "$\x7bk\x7d"), ("k", "$\x7bl\x7d"),
    ("l", "$\x7bm\x7d"), ("m", "$\x7bn\x7d"), ("n", "$\x7bo\x7d"), ("o", "$\x7bp\x7d"),
    ("p", "[$\x7bowner\x7d]")]]

theorem expand_chainOfValues :
    (∀ l ∈ chainOfValues, l.IsTokenized) ∧ Tokenized "$\x7ba\x7d: $\x7bo\x7d".toList ∧
      EndsWithin (firstValue? chainOfValues) 16 (tokens "$\x7ba\x7d: $\x7bo\x7d".toList) ∧
      (let e : Expander := { layers := chainOfValues }
       Expands e.value? (pieces "$\x7ba\x7d: $\x7bo\x7d".toList)
        "[$\x7bowner\x7d]: [$\x7bowner\x7d]".toList ∧
        e.expand "$\x7ba\x7d: $\x7bo\x7d" = "[$\x7bowner\x7d]: [$\x7bowner\x7d]" ∧
        e.unresolved "$\x7ba\x7d: $\x7bo\x7d" = ["owner", "owner"]) := by
  have hlayers : ∀ l ∈ chainOfValues, l.IsTokenized := by
    simp only [chainOfValues, List.forall_mem_cons, Layer.IsTokenized]
    refine ⟨?_, ?_, List.forall_mem_nil _⟩ <;> decide +kernel
  have htext : Tokenized "$\x7ba\x7d: $\x7bo\x7d".toList := by decide +kernel
  have hends : EndsWithin (firstValue? chainOfValues) 16
      (tokens "$\x7ba\x7d: $\x7bo\x7d".toList) := by decide +kernel
  obtain ⟨hexpands, hunresolved⟩ := expand_iff_expands hlayers htext hends
  have hexpand : ({ layers := chainOfValues } : Expander).expand "$\x7ba\x7d: $\x7bo\x7d" =
      "[$\x7bowner\x7d]: [$\x7bowner\x7d]" := by decide +kernel
  refine ⟨hlayers, htext, hends, ?_, hexpand, hunresolved.trans ?_⟩
  · rw [value?_eq_firstValue? hlayers]
    exact (hexpands _).mpr (hexpand.trans String.ofList_toList.symm)
  · rw [hexpand]
    decide +kernel

end Expander

end ApiAssembly
