import ApiAssembly.Text.Basic
import Mathlib.Data.List.Infix

/-!
# Proofs — Text — what replacing leaves alone

`Text.replaceAll` looks for its pattern from left to right.  Characters that do not begin the
pattern are passed over (`replaceAll_append_of_not_mem`), the pattern itself gives way to the new
text (`replaceAll_append_self`), and a text behind the last place where the pattern can end stays as
it is (`replaceAll_append_right`).
-/

namespace ApiAssembly

namespace Text

variable {p q : Char} {ps new xs ys cs : List Char}

theorem replaceAll_cons (p : Char) (ps new hay : List Char) :
    replaceAll (p :: ps) new hay = replaceFrom (p :: ps) new 0 hay := rfl

/-- The characters of an occurrence that was replaced are skipped. -/
theorem replaceFrom_length_append (pat new xs ys : List Char) :
    replaceFrom pat new xs.length (xs ++ ys) = replaceFrom pat new 0 ys := by
  induction xs with
  | nil => rfl
  | cons x xs ih => exact ih

/-- Where the pattern does not begin, the character stays. -/
theorem replaceFrom_cons_of_no_match {pat : List Char} {c : Char} (h : ¬ pat <+: c :: cs) :
    replaceFrom pat new 0 (c :: cs) = c :: replaceFrom pat new 0 cs := by
  rw [replaceFrom, if_neg (by rwa [List.isPrefixOf_iff_prefix])]

/-- Characters that do not begin the pattern are passed over. -/
theorem replaceAll_append_of_not_mem (h : p ∉ xs) (ys : List Char) :
    replaceAll (p :: ps) new (xs ++ ys) = xs ++ replaceAll (p :: ps) new ys := by
  induction xs with
  | nil => rfl
  | cons x xs ih =>
    obtain ⟨hx, hxs⟩ := List.ne_and_not_mem_of_not_mem_cons h
    have hpre : ¬ p :: ps <+: x :: (xs ++ ys) := fun hp => hx (List.cons_prefix_cons.mp hp).1
    rw [List.cons_append, replaceAll_cons, replaceFrom_cons_of_no_match hpre, ← replaceAll_cons,
      ih hxs, List.cons_append]

theorem replaceAll_of_not_mem (h : p ∉ xs) : replaceAll (p :: ps) new xs = xs := by
  have hxs : replaceAll (p :: ps) new (xs ++ []) = xs ++ [] := replaceAll_append_of_not_mem h []
  rwa [List.append_nil] at hxs

/-- The pattern itself gives way to the new text. -/
theorem replaceAll_append_self (p : Char) (ps new ys : List Char) :
    replaceAll (p :: ps) new (p :: ps ++ ys) = new ++ replaceAll (p :: ps) new ys := by
  have hpre : (p :: ps).isPrefixOf (p :: (ps ++ ys)) :=
    List.isPrefixOf_iff_prefix.mpr (List.prefix_append (p :: ps) ys)
  rw [replaceAll_cons, List.cons_append, replaceFrom, if_pos hpre, List.length_cons,
    Nat.add_sub_cancel, replaceFrom_length_append, replaceAll_cons]

/-! ### A text behind every occurrence -/

/-- A pattern whose end does not come in a text behind is found in front of it, or nowhere. -/
theorem prefix_append_right_iff {pat : List Char} (hq : q ∉ ys) :
    pat ++ [q] <+: xs ++ ys ↔ pat ++ [q] <+: xs := by
  constructor
  · intro h
    rcases List.prefix_or_prefix_of_prefix h (List.prefix_append xs ys) with hp | ⟨rest, hr⟩
    · exact hp
    · -- The rest of the pattern would begin the text behind, and holds its end.
      rw [← hr, List.prefix_append_right_inj] at h
      rcases List.eq_nil_or_concat' rest with rfl | ⟨rest, q', rfl⟩
      · rw [List.append_nil] at hr
        exact hr ▸ List.prefix_rfl
      · rw [← List.append_assoc] at hr
        obtain rfl := List.singleton_inj.mp (List.append_inj' hr rfl).2
        exact absurd (h.subset (List.mem_append_right _ (List.mem_singleton_self _))) hq
  · exact fun h => h.trans (List.prefix_append xs ys)

theorem replaceFrom_append_right {pat : List Char} (hq : q ∉ ys) {skip : Nat}
    (hskip : skip ≤ xs.length) :
    replaceFrom (pat ++ [q]) new skip (xs ++ ys) = replaceFrom (pat ++ [q]) new skip xs ++ ys := by
  induction xs generalizing skip with
  | nil =>
    obtain rfl := Nat.le_zero.mp hskip
    induction ys with
    | nil => rfl
    | cons y ys ih =>
      have hpre : ¬ pat ++ [q] <+: y :: ys := fun hp =>
        hq (hp.subset (List.mem_append_right _ (List.mem_singleton_self _)))
      rw [List.nil_append, replaceFrom_cons_of_no_match hpre]
      exact congrArg (y :: ·) (ih (List.not_mem_of_not_mem_cons hq))
  | cons x xs ih =>
    cases skip with
    | succ skip => exact ih (Nat.le_of_succ_le_succ hskip)
    | zero =>
      have hiff : pat ++ [q] <+: x :: xs ++ ys ↔ pat ++ [q] <+: x :: xs :=
        prefix_append_right_iff hq
      rw [List.cons_append] at hiff ⊢
      by_cases hpre : pat ++ [q] <+: x :: xs
      · have hle : (pat ++ [q]).length - 1 ≤ xs.length := by
          have := hpre.length_le
          rw [List.length_cons] at this
          omega
        rw [replaceFrom, if_pos (List.isPrefixOf_iff_prefix.mpr (hiff.mpr hpre)), ih hle,
          replaceFrom, if_pos (List.isPrefixOf_iff_prefix.mpr hpre), List.append_assoc]
      · rw [replaceFrom_cons_of_no_match (mt hiff.mp hpre), replaceFrom_cons_of_no_match hpre,
          ih (Nat.zero_le _), List.cons_append]

/-- A text behind the last place where the pattern can end stays as it is. -/
theorem replaceAll_append_right {pat : List Char} (hq : q ∉ ys) :
    replaceAll (pat ++ [q]) new (xs ++ ys) = replaceAll (pat ++ [q]) new xs ++ ys := by
  have hne : (pat ++ [q]).isEmpty = false := by simp
  rw [replaceAll, replaceAll, hne]
  exact replaceFrom_append_right hq (Nat.zero_le _)

end Text

end ApiAssembly
