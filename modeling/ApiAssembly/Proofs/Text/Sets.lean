import ApiAssembly.SortedTexts
import ApiAssembly.TextSet
import Mathlib.Data.List.Induction
import Mathlib.Data.List.Nodup
import Mathlib.Data.List.Perm.Subperm
import Mathlib.Data.List.Sort

/-!
# Proofs — Text — first occurrences and sets of texts

A set of texts keeps each text at its first place, as `List.eraseDups` does (`items_addAll`); these
first occurrences may increase although the texts do not (`pairwise_lt_eraseDups_map_iff`).  Texts
that are sorted are kept once each (`mem_sortedTexts`, `pairwise_sortedTexts`).
-/

namespace ApiAssembly

theorem eraseDups_concat {α : Type} [BEq α] [LawfulBEq α] (xs : List α) (x : α) :
    (xs ++ [x]).eraseDups = if x ∈ xs then xs.eraseDups else xs.eraseDups ++ [x] := by
  rw [List.eraseDups_append]
  split
  case isTrue h => simp [List.removeAll, h]
  case isFalse h => simp [List.removeAll, h, List.eraseDups_cons]

theorem eraseDups_of_nodup {α : Type} [BEq α] [LawfulBEq α] {xs : List α} (h : xs.Nodup) :
    xs.eraseDups = xs := by
  induction xs using List.reverseRecOn with
  | nil => rfl
  | append_singleton xs x ih =>
    obtain ⟨hxs, -, hx⟩ := List.nodup_append.mp h
    have hx : x ∉ xs := fun hm => hx x hm x (List.mem_singleton_self x) rfl
    rw [eraseDups_concat, if_neg hx, ih hxs]

theorem nodup_eraseDups {α : Type} [BEq α] [LawfulBEq α] (xs : List α) : xs.eraseDups.Nodup := by
  induction xs using List.reverseRecOn with
  | nil => exact List.nodup_nil
  | append_singleton xs x ih =>
    rw [eraseDups_concat]
    split
    case isTrue => exact ih
    case isFalse h =>
      exact List.nodup_append_comm.mp (List.nodup_cons.mpr ⟨mt List.mem_eraseDups.mp h, ih⟩)

theorem length_eraseDups_eq_iff {α : Type} [BEq α] [LawfulBEq α] {xs : List α} :
    xs.eraseDups.length = xs.length ↔ xs.Nodup := by
  refine ⟨fun h => ?_, fun h => by rw [eraseDups_of_nodup h]⟩
  have hsub : xs.eraseDups ⊆ xs := fun _ hx => List.mem_eraseDups.mp hx
  have hperm : xs.eraseDups.Perm xs :=
    (List.subperm_of_subset (nodup_eraseDups xs) hsub).perm_of_length_le (Nat.le_of_eq h.symm)
  exact hperm.nodup_iff.mp (nodup_eraseDups xs)

/-- What a property says of every place of a list and of its end is about every place of a longer
one. -/
theorem forall_split_concat_iff {α : Type} {p : List α → α → Prop} {xs : List α} {x : α} :
    (∀ front y back, xs ++ [x] = front ++ y :: back → p front y) ↔
      (∀ front y back, xs = front ++ y :: back → p front y) ∧ p xs x := by
  constructor
  · exact fun h => ⟨fun front y back he => h front y (back ++ [x]) (by simp [he]), h xs x [] rfl⟩
  · rintro ⟨h, hx⟩ front y back he
    rcases back.eq_nil_or_concat with rfl | ⟨back, z, rfl⟩
    · obtain ⟨rfl, hxy⟩ := List.append_inj' he rfl
      obtain ⟨rfl, -⟩ := List.cons.inj hxy
      exact hx
    · rw [List.concat_eq_append, ← List.cons_append, ← List.append_assoc] at he
      exact h front y back (List.append_inj' he rfl).1

/-- The first occurrences increase exactly when every text has been there or is greater than all
before it. -/
theorem pairwise_lt_eraseDups_map_iff {α : Type} {f : α → String} {xs : List α} :
    (xs.map f).eraseDups.Pairwise (· < ·) ↔ ∀ front x back, xs = front ++ x :: back →
      f x ∈ front.map f ∨ ∀ y ∈ front, f y < f x := by
  induction xs using List.reverseRecOn with
  | nil => simp
  | append_singleton xs x ih =>
    have hlast : ∀ ys : List String, (ys ++ [f x]).Pairwise (· < ·) ↔
        ys.Pairwise (· < ·) ∧ ∀ y ∈ ys, y < f x := by
      simp [List.pairwise_append]
    rw [forall_split_concat_iff, ← ih, List.map_append, List.map_singleton, eraseDups_concat]
    split
    case isTrue hx => exact (and_iff_left (.inl hx)).symm
    case isFalse hx =>
      rw [hlast, or_iff_right hx]
      simp only [List.mem_eraseDups, List.forall_mem_map]

/-! ### Texts in order -/

/-- What is sorted by texts is in their order. -/
theorem pairwise_mergeSort_of {α : Type} (text : α → String) (xs : List α) :
    (xs.mergeSort fun a b => decide (text a ≤ text b)).Pairwise fun a b => text a ≤ text b := by
  refine (List.pairwise_mergeSort ?_ ?_ xs).imp of_decide_eq_true
  · intro a b c hab hbc
    exact decide_eq_true (String.le_trans (of_decide_eq_true hab) (of_decide_eq_true hbc))
  · intro a b
    rcases String.le_total (text a) (text b) with h | h <;> simp [h]

theorem mem_eraseReps_loop {x a : String} {as acc : List String} :
    x ∈ List.eraseRepsBy.loop (· == ·) a as acc ↔ x ∈ acc ∨ x ∈ a :: as := by
  induction as generalizing a acc with
  | nil => simp [List.eraseRepsBy.loop, or_comm]
  | cons b as ih =>
    rw [List.eraseRepsBy.loop]
    split
    case h_1 heq =>
      obtain rfl := eq_of_beq heq
      rw [ih]
      simp
    case h_2 =>
      rw [ih]
      simp only [List.mem_cons]
      tauto

/-- Texts in order are kept once each: what was kept is in front of the text that is looked at, the
last one first. -/
theorem pairwise_eraseReps_loop {a : String} {as acc : List String}
    (has : (a :: as).Pairwise (· ≤ ·)) (hacc : (a :: acc).Pairwise fun x y => y < x) :
    (List.eraseRepsBy.loop (· == ·) a as acc).Pairwise (· < ·) := by
  induction as generalizing a acc with
  | nil =>
    rw [List.eraseRepsBy.loop]
    exact List.pairwise_reverse.mpr hacc
  | cons b as ih =>
    obtain ⟨hle, has⟩ := List.pairwise_cons.mp has
    have hab : a ≤ b := hle b List.mem_cons_self
    rw [List.eraseRepsBy.loop]
    split
    case h_1 heq =>
      obtain rfl := eq_of_beq heq
      exact ih has hacc
    case h_2 hne =>
      have hlt : a < b :=
        String.not_le.mp fun h => beq_eq_false_iff_ne.mp hne (String.le_antisymm hab h)
      refine ih has (List.pairwise_cons.mpr ⟨List.forall_mem_cons.mpr ⟨hlt, fun y hy => ?_⟩, hacc⟩)
      exact String.lt_trans ((List.pairwise_cons.mp hacc).1 y hy) hlt

theorem eraseReps_cons (a : String) (as : List String) :
    (a :: as).eraseReps = List.eraseRepsBy.loop (· == ·) a as [] := by
  simp only [List.eraseReps, List.eraseRepsBy]

theorem mem_sortedTexts {texts : List String} {t : String} : t ∈ sortedTexts texts ↔ t ∈ texts := by
  have hmem : t ∈ texts.mergeSort (fun a b => decide (a ≤ b)) ↔ t ∈ texts := List.mem_mergeSort
  rw [← hmem, sortedTexts]
  cases texts.mergeSort fun a b => decide (a ≤ b) with
  | nil => exact Iff.rfl
  | cons a as => rw [eraseReps_cons, mem_eraseReps_loop, or_iff_right List.not_mem_nil]

theorem pairwise_sortedTexts (texts : List String) : (sortedTexts texts).Pairwise (· < ·) := by
  have hsorted : (texts.mergeSort fun a b => decide (a ≤ b)).Pairwise (· ≤ ·) :=
    pairwise_mergeSort_of id texts
  rw [sortedTexts]
  cases hs : texts.mergeSort fun a b => decide (a ≤ b) with
  | nil => exact List.Pairwise.nil
  | cons a as =>
    rw [hs] at hsorted
    rw [eraseReps_cons]
    exact pairwise_eraseReps_loop hsorted (List.pairwise_singleton _ a)

theorem nodup_sortedTexts (texts : List String) : (sortedTexts texts).Nodup :=
  List.Pairwise.nodup (pairwise_sortedTexts texts)

/-- Texts that increase are sorted. -/
theorem sortedTexts_of_pairwise {texts : List String} (h : texts.Pairwise (· < ·)) :
    sortedTexts texts = texts :=
  (pairwise_sortedTexts texts).eq_of_mem_iff h fun _ => mem_sortedTexts

/-- Two selections of sorted texts are the same when they have the same members. -/
theorem filter_sortedTexts_congr {xs ys : List String} {p q : String → Bool}
    (h : ∀ t, t ∈ xs ∧ p t ↔ t ∈ ys ∧ q t) :
    (sortedTexts xs).filter p = (sortedTexts ys).filter q := by
  refine ((pairwise_sortedTexts xs).filter p).eq_of_mem_iff ((pairwise_sortedTexts ys).filter q) ?_
  simpa only [List.mem_filter, mem_sortedTexts] using h

namespace TextSet

/-- Adding texts one by one keeps the first place of each. -/
theorem items_addAll (s : TextSet) (xs : List String) :
    (s.addAll xs).items = (s.items ++ xs).eraseDups := by
  induction xs using List.reverseRecOn with
  | nil => rw [List.append_nil, eraseDups_of_nodup s.nodup]; rfl
  | append_singleton xs x ih =>
    rw [addAll, List.foldl_append, List.foldl_cons, List.foldl_nil, ← addAll, items_add, ih,
      ← List.append_assoc, eraseDups_concat]
    simp only [List.mem_eraseDups]

/-- A set is the set of its texts. -/
theorem ofList_items (s : TextSet) : ofList s.items = s := by
  obtain ⟨items, nodup⟩ := s
  have h : (ofList items).items = items := by
    rw [ofList, items_addAll]
    exact eraseDups_of_nodup nodup
  cases hs : ofList items with
  | mk items' nodup' =>
    rw [hs] at h
    subst h
    rfl

end TextSet

end ApiAssembly
