import ApiAssembly.Config.Context
import ApiAssembly.Proofs.Text.Replacing
import ApiAssembly.Schema.Basic

/-!
# Proofs — Placeholder — tokens behind other characters

Tokens and the aliases of a context open with a dollar sign, so what stands in front of the first
one stays as it is (`Context.expand_append`).  A reference to a component schema thus expands to the
reference to what the name of the schema expands to (`Context.expand_schemaReference`).
-/

namespace ApiAssembly

variable {xs : List Char}

namespace Placeholder

/-- Characters without a dollar sign are pieces of their own. -/
theorem pieces_append (h : '$' ∉ xs) (ys : List Char) :
    pieces (xs ++ ys) = xs.map .char ++ pieces ys := by
  induction xs with
  | nil => rfl
  | cons x xs ih =>
    obtain ⟨hx, hxs⟩ := List.ne_and_not_mem_of_not_mem_cons h
    rw [List.cons_append, pieces, piecesFrom, if_neg (Ne.symm hx)]
    exact congrArg (.char x :: ·) (ih hxs)

theorem tokens_append (h : '$' ∉ xs) (ys : List Char) : tokens (xs ++ ys) = tokens ys := by
  rw [tokens, pieces_append h, List.filterMap_append, List.filterMap_map, ← tokens]
  simp

/-- What stands in front of the first dollar sign is not substituted. -/
theorem substitute_append (value? : String → Option String) (h : '$' ∉ xs) (ys : List Char) :
    substitute value? (xs ++ ys) = xs ++ substitute value? ys := by
  rw [substitute, pieces_append h, List.flatMap_append, List.flatMap_map, ← substitute]
  simp

theorem opensToken_append (h : '$' ∉ xs) (ys : List Char) :
    opensToken (xs ++ ys) = opensToken ys := by
  induction xs with
  | nil => rfl
  | cons x xs ih =>
    obtain ⟨hx, hxs⟩ := List.ne_and_not_mem_of_not_mem_cons h
    have hpre : ['$', '{'].isPrefixOf (x :: (xs ++ ys)) = false := by
      simp [List.isPrefixOf, hx]
    rw [opensToken, List.cons_append, Text.occurs, hpre, Bool.false_or]
    exact ih hxs

end Placeholder

namespace Expander

variable {e : Expander}

/-- What stands in front of the first dollar sign stays through every pass. -/
theorem passes_append (h : '$' ∉ xs) (n : Nat) (ys : List Char) :
    e.passes n (xs ++ ys) = xs ++ e.passes n ys := by
  induction n generalizing ys with
  | zero => rfl
  | succ n ih =>
    rw [passes, passes, Placeholder.tokens_append h, Placeholder.substitute_append _ h, ih]
    split <;> rfl

/-- The aliases open with a dollar sign, as tokens do. -/
def AliasesOpen (e : Expander) : Prop := ∀ a ∈ e.aliases, ∃ cs, a.1.toList = '$' :: cs

/-- Where all aliases open with a dollar sign, none is in front of the first one. -/
theorem replaceAliases_append (ha : e.AliasesOpen) (h : '$' ∉ xs) (ys : List Char) :
    e.replaceAliases (xs ++ ys) = xs ++ e.replaceAliases ys := by
  obtain ⟨aliases, layers⟩ := e
  rw [AliasesOpen] at ha
  dsimp only [replaceAliases] at ha ⊢
  induction aliases generalizing ys with
  | nil => rfl
  | cons a aliases ih =>
    obtain ⟨⟨cs, hcs⟩, ha⟩ := List.forall_mem_cons.mp ha
    rw [List.foldl_cons, List.foldl_cons, hcs, Text.replaceAll_append_of_not_mem h, ih _ ha]

theorem expandChars_append (ha : e.AliasesOpen) (h : '$' ∉ xs) (ys : List Char) :
    e.expandChars (xs ++ ys) = xs ++ e.expandChars ys := by
  rw [expandChars, expandChars, Placeholder.opensToken_append h]
  split
  · rw [replaceAliases_append ha h, passes_append h]
  · rfl

end Expander

namespace Context

/-- The aliases of a context are tokens. -/
theorem aliasesOpen_expander (c : Context) : c.expander.AliasesOpen := by
  rw [Expander.AliasesOpen, expander, aliases]
  -- Every alias that is new is made of a token, and the others are kept.
  refine List.foldlRecOn (motive := fun known : List (String × String) =>
    ∀ a ∈ known, ∃ cs, a.1.toList = '$' :: cs) _ _ (fun a ha => absurd ha List.not_mem_nil) ?_
  intro known hknown entry _ a ha
  rw [Keyed.insertNew] at ha
  split at ha
  · exact hknown a ha
  · rcases List.mem_append.mp ha with ha | ha
    · exact hknown a ha
    · rw [List.mem_singleton.mp ha, String.toList_ofList]
      exact ⟨_, rfl⟩

/-- What stands in front of the first dollar sign stays as it is. -/
theorem expand_append (c : Context) {before : String} (h : '$' ∉ before.toList) (text : String) :
    c.expander.expand (before ++ text) = before ++ c.expander.expand text := by
  rw [Expander.expand, String.toList_append, Expander.expandChars_append c.aliasesOpen_expander h,
    String.ofList_append, String.ofList_toList, Expander.expand]

/-- The reference to a schema expands to the reference to what its name expands to. -/
theorem expand_schemaReference (c : Context) (name : String) :
    c.expander.expand (schemaReference name) = schemaReference (c.expander.expand name) :=
  c.expand_append (by decide) name

end Context

end ApiAssembly
