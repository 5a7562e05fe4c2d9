import ApiAssembly.Placeholder.Expander

/-!
# Proofs — Placeholder — the passes over a text

A pass puts the values of all tokens that have one into a text, and what comes of it is gone over
again: `Leads` counts the passes.  They stop at a text without such a token, or after the sixteenth
(`passes_eq_iff`).  So expanding need not leave an expanded text as it is: a value may bring in an
alias when the aliases have had their turn, or a token that leads back to itself.  What comes of the
text is told by the passes over it (`expand_expand_eq_iff`).
-/

namespace ApiAssembly

namespace Placeholder

variable {cs : List Char}

theorem mem_pieces_of_mem_tokens {t : String} (h : t ∈ tokens cs) :
    Piece.token t.toList ∈ pieces cs := by
  obtain ⟨p, hp, ht⟩ := List.mem_filterMap.mp h
  cases p with
  | char c => cases ht
  | token name =>
    obtain rfl := Option.some.inj ht
    rwa [String.toList_ofList]

/-- The text of a piece stands in the text that was cut. -/
theorem chars_infix_of_mem_pieces {p : Piece} (h : p ∈ pieces cs) : p.chars <:+: cs := by
  have hin : p.chars ∈ (pieces cs).map Piece.chars := List.mem_map_of_mem h
  have hflat := List.infix_of_mem_flatten hin
  rwa [← List.flatMap_def, chars_pieces] at hflat

/-- A text with a token has a dollar sign with an opening brace. -/
theorem tokens_of_not_opens (h : opensToken cs = false) : tokens cs = [] := by
  rw [List.eq_nil_iff_forall_not_mem]
  intro t ht
  have hstart : ['$', '{'] <+: tokenChars t.toList := List.prefix_append ['$', '{'] _
  have hin := chars_infix_of_mem_pieces (mem_pieces_of_mem_tokens ht)
  rw [opensToken, ← Bool.not_eq_true, Text.occurs_iff] at h
  exact h (hstart.isInfix.trans hin)

end Placeholder

namespace Expander

variable {e : Expander} {n k : Nat} {cs ds : List Char}

/-- A text has a token with a value. -/
def Replaceable (e : Expander) (cs : List Char) : Prop :=
  ∃ t ∈ Placeholder.tokens cs, (e.value? t).isSome

/-- So many passes lead from one text to another, each over a text with a token to replace. -/
inductive Leads (e : Expander) : Nat → List Char → List Char → Prop where
  | refl (cs : List Char) : Leads e 0 cs cs
  | more {n : Nat} {cs ds : List Char} (h : e.Replaceable cs)
      (t : Leads e n (Placeholder.substitute e.value? cs) ds) : Leads e (n + 1) cs ds

/-- Where no token opens, none can be replaced. -/
theorem not_replaceable_of_not_opens (h : Placeholder.opensToken cs = false) :
    ¬ e.Replaceable cs := by
  rintro ⟨t, ht, -⟩
  rw [Placeholder.tokens_of_not_opens h] at ht
  exact List.not_mem_nil ht

theorem passes_of_replaceable (h : e.Replaceable cs) (n : Nat) :
    e.passes (n + 1) cs = e.passes n (Placeholder.substitute e.value? cs) :=
  if_pos (List.any_eq_true.mpr h)

/-- The passes stop where no token has a value. -/
theorem passes_of_not_replaceable (h : ¬ e.Replaceable cs) (n : Nat) : e.passes n cs = cs := by
  cases n with
  | zero => rfl
  | succ n => exact if_neg fun hany => h (List.any_eq_true.mp hany)

/-- Passes that were counted may be left out. -/
theorem Leads.passes_eq (h : e.Leads k cs ds) (n : Nat) : e.passes (k + n) cs = e.passes n ds := by
  induction h with
  | refl => rw [Nat.zero_add]
  | more h _ ih => rw [Nat.succ_add, passes_of_replaceable h, ih]

/-- The passes stop at a text without a token to replace, or when they are all made. -/
theorem exists_leads_passes (e : Expander) (n : Nat) (cs : List Char) :
    ∃ k ≤ n, e.Leads k cs (e.passes n cs) ∧ (k = n ∨ ¬ e.Replaceable (e.passes n cs)) := by
  induction n generalizing cs with
  | zero => exact ⟨0, Nat.le_refl 0, .refl cs, .inl rfl⟩
  | succ n ih =>
    by_cases h : e.Replaceable cs
    · obtain ⟨k, hk, hleads, hend⟩ := ih (Placeholder.substitute e.value? cs)
      rw [passes_of_replaceable h]
      exact ⟨k + 1, Nat.succ_le_succ hk, .more h hleads, hend.imp_left (congrArg _)⟩
    · rw [passes_of_not_replaceable h]
      exact ⟨0, Nat.zero_le _, .refl cs, .inr h⟩

/-- The passes stop at a text without a token that has a value, or when they are used up. -/
theorem passes_eq_iff :
    e.passes n cs = ds ↔ ∃ k ≤ n, e.Leads k cs ds ∧ (k = n ∨ ¬ e.Replaceable ds) := by
  constructor
  · rintro rfl
    exact e.exists_leads_passes n cs
  · rintro ⟨k, hk, hleads, rfl | hend⟩
    · exact hleads.passes_eq 0
    · obtain ⟨m, rfl⟩ := Nat.exists_eq_add_of_le hk
      rw [hleads.passes_eq, passes_of_not_replaceable hend]

/-- A text that the passes leave as it is has no token to replace, or comes back after the last. -/
theorem passes_eq_self_iff :
    e.passes n cs = cs ↔ ¬ e.Replaceable cs ∨ e.Leads n cs cs := by
  constructor
  · intro h
    obtain ⟨k, -, hleads, rfl | hend⟩ := passes_eq_iff.mp h
    · exact .inr hleads
    · exact .inl hend
  · rintro (h | h)
    · exact passes_of_not_replaceable h n
    · exact h.passes_eq 0

/-! ### Expanding an expanded text -/

theorem expand_eq_self_iff (e : Expander) (text : String) :
    e.expand text = text ↔ e.expandChars text.toList = text.toList := by
  rw [expand, ← String.toList_inj, String.toList_ofList]

/-- A text stays when no token opens in it, or when the passes over it lead back to it. -/
theorem expandChars_eq_self_iff (e : Expander) (cs : List Char) :
    e.expandChars cs = cs ↔ Placeholder.opensToken cs = false ∨ ∃ k ≤ passLimit,
      e.Leads k (e.replaceAliases cs) cs ∧ (k = passLimit ∨ ¬ e.Replaceable cs) := by
  cases h : Placeholder.opensToken cs with
  | false => simp [e.expandChars_of_not_opens h]
  | true =>
    rw [expandChars, if_pos h, passes_eq_iff]
    simp

/-- The expanded text has a token to replace only if all passes were made. -/
theorem leads_expandChars (h : e.Replaceable (e.expandChars cs)) :
    e.Leads passLimit (e.replaceAliases cs) (e.expandChars cs) := by
  rw [expandChars] at h ⊢
  split at h
  case isTrue hopens =>
    obtain ⟨k, -, hleads, rfl | hend⟩ := e.exists_leads_passes passLimit (e.replaceAliases cs)
    · rwa [if_pos hopens]
    · exact absurd h hend
  case isFalse hopens =>
    exact absurd h (not_replaceable_of_not_opens (Bool.eq_false_iff.mpr hopens))

/-- **Expanding an expanded text gives the same text exactly when it has no token, or when its
aliases and the passes after them lead back to it.**  Where it has no alias, that is when it has no
token to replace, or sixteen passes lead back to it; and it can have a token to replace only if
sixteen passes have led to it. -/
theorem expand_expand_eq_iff (e : Expander) (text : String) :
    let expanded := e.expandChars text.toList
    (e.expand (e.expand text) = e.expand text ↔ Placeholder.opensToken expanded = false ∨
      ∃ k ≤ passLimit, e.Leads k (e.replaceAliases expanded) expanded ∧
        (k = passLimit ∨ ¬ e.Replaceable expanded)) ∧
    (e.replaceAliases expanded = expanded →
      (e.expand (e.expand text) = e.expand text ↔
        ¬ e.Replaceable expanded ∨ e.Leads passLimit expanded expanded)) ∧
    (e.Replaceable expanded → e.Leads passLimit (e.replaceAliases text.toList) expanded) := by
  intro expanded
  have hchars : (e.expand text).toList = expanded := String.toList_ofList
  rw [expand_eq_self_iff, hchars]
  refine ⟨e.expandChars_eq_self_iff expanded, fun halias => ?_, leads_expandChars⟩
  cases hopens : Placeholder.opensToken expanded with
  | false => simp [e.expandChars_of_not_opens hopens, not_replaceable_of_not_opens hopens]
  | true => rw [expandChars, if_pos hopens, halias, passes_eq_self_iff]

/-- Has a value with an alias in it. -/
def aliasInValue : Expander where
  aliases := [("$\x7bx\x7d", "1")]
  layers := [.system [("y", "$\x7bx\x7d")]]

/-- Has a value that holds its own token, and grows. -/
def growingValue : Expander where
  layers := [.system [("a", "$\x7ba\x7dx")]]

/-- A value may bring in an alias, and a value with its own token grows in every pass. -/
theorem expand_expand_ne :
    aliasInValue.expand (aliasInValue.expand "$\x7by\x7d") ≠ aliasInValue.expand "$\x7by\x7d" ∧
      growingValue.expand (growingValue.expand "$\x7ba\x7d") ≠ growingValue.expand "$\x7ba\x7d" := by
  decide

end Expander

end ApiAssembly
