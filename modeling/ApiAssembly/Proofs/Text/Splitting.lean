import ApiAssembly.Text.Basic
import Mathlib.Data.List.DropRight

/-!
# Proofs — Text — cutting, joining and trimming

`Text.splitAll`, `Text.join` and `Text.dropEndWhile` are the library's functions on lists
(`splitAll_eq_splitOnP`, `join_eq_intercalate`, `dropEndWhile_eq_rdropWhile`), so that to join what
stands between a character gives the text back (`join_splitAll`), and to cut a join gives back the
texts that the character is not in (`splitAll_join`).  The parts of a text begin those of another
one exactly when that is the same text or goes on behind it with a separator
(`splitAll_isPrefix_iff`).  `Text.splitLast` cuts where no character of the class follows
(`splitLast_append_cons`).  To trim a text is to take off blanks: those that are put around it are
lost again (`trim_append_append`), and all other characters stay (`count_trim`).
-/

namespace ApiAssembly

namespace Text

variable {p : Char → Bool} {c : Char} {cs before after : List Char}

/-! ### The parts between characters -/

theorem splitAll_eq_splitOnP (p : Char → Bool) (cs : List Char) :
    splitAll p cs = cs.splitOnP p := by
  induction cs with
  | nil => rfl
  | cons c cs ih =>
    rw [splitAll, ih, List.splitOnP_cons_eq_if_modifyHead]
    cases h : cs.splitOnP p with
    | nil => exact absurd h (List.splitOnP_ne_nil p cs)
    | cons part rest => rfl

theorem join_eq_intercalate (sep : List Char) (xs : List (List Char)) :
    join sep xs = sep.intercalate xs := by
  induction xs with
  | nil => rfl
  | cons x xs ih =>
    cases xs with
    | nil => exact List.intercalate_singleton.symm
    | cons y r => rw [join, ih, List.intercalate_cons_cons]

/-- There is at least one part. -/
theorem exists_splitAll_eq_cons (p : Char → Bool) (cs : List Char) :
    ∃ part rest, splitAll p cs = part :: rest := by
  rw [splitAll_eq_splitOnP]
  exact List.exists_cons_of_ne_nil (List.splitOnP_ne_nil p cs)

/-- A character of the class ends a part. -/
theorem splitAll_append_cons (hc : p c = true) (cs ds : List Char) :
    splitAll p (cs ++ c :: ds) = splitAll p cs ++ splitAll p ds := by
  simp only [splitAll_eq_splitOnP]
  exact List.splitOnP_append_cons cs ds hc

/-- A text without a separator is one part. -/
theorem splitAll_of_forall (h : ∀ c ∈ cs, p c = false) : splitAll p cs = [cs] := by
  rw [splitAll_eq_splitOnP]
  exact List.splitOnP_eq_singleton h

/-- A character that ends no part is in one of the parts. -/
theorem exists_mem_splitAll (hc : c ∈ cs) (hp : p c = false) :
    ∃ part ∈ splitAll p cs, c ∈ part := by
  induction cs with
  | nil => cases hc
  | cons d cs ih =>
    obtain ⟨first, rest, hsplit⟩ := exists_splitAll_eq_cons p cs
    rw [hsplit] at ih
    rw [splitAll, hsplit]
    dsimp only
    rcases List.mem_cons.mp hc with rfl | hc
    · rw [if_neg (by simp [hp])]
      exact ⟨c :: first, List.mem_cons_self, List.mem_cons_self⟩
    · obtain ⟨part, hpart, hmem⟩ := ih hc
      split
      · exact ⟨part, List.mem_cons_of_mem _ hpart, hmem⟩
      · rcases List.mem_cons.mp hpart with rfl | hpart
        · exact ⟨d :: part, List.mem_cons_self, List.mem_cons_of_mem _ hmem⟩
        · exact ⟨part, List.mem_cons_of_mem _ hpart, hmem⟩

/-- No part has a character that ends parts. -/
theorem eq_false_of_mem_splitAll {part : List Char} (h : part ∈ splitAll p cs) :
    ∀ c ∈ part, p c = false := by
  induction cs generalizing part with
  | nil =>
    obtain rfl := List.mem_singleton.mp h
    exact nofun
  | cons d cs ih =>
    obtain ⟨first, rest, hsplit⟩ := exists_splitAll_eq_cons p cs
    rw [hsplit] at ih
    rw [splitAll, hsplit] at h
    dsimp only at h
    split at h
    case isTrue =>
      rcases List.mem_cons.mp h with rfl | h
      · exact nofun
      · exact ih h
    case isFalse hd =>
      rcases List.mem_cons.mp h with rfl | h
      · exact List.forall_mem_cons.mpr ⟨Bool.eq_false_iff.mpr hd, ih List.mem_cons_self⟩
      · exact ih (List.mem_cons_of_mem _ h)

/-- To join what stands between a character gives the text back. -/
theorem join_splitAll (c : Char) (cs : List Char) : join [c] (splitAll (· == c) cs) = cs := by
  rw [splitAll_eq_splitOnP, join_eq_intercalate, ← List.splitOn_eq_splitOnP]
  exact List.intercalate_splitOn c

/-- The parts of a join are those of each text. -/
theorem splitAll_join_eq_flatMap {xs : List (List Char)} (hxs : xs ≠ []) :
    splitAll (· == c) (join [c] xs) = xs.flatMap (splitAll (· == c)) := by
  induction xs with
  | nil => exact absurd rfl hxs
  | cons x xs ih =>
    cases xs with
    | nil => exact (List.append_nil _).symm
    | cons y rest =>
      rw [join, List.append_assoc, List.singleton_append,
        splitAll_append_cons (p := (· == c)) (beq_self_eq_true c), ih (List.cons_ne_nil _ _),
        ← List.flatMap_cons]

/-- To cut a join gives back the texts that the character is not in. -/
theorem splitAll_join {xs : List (List Char)} (hxs : xs ≠ []) (h : ∀ x ∈ xs, c ∉ x) :
    splitAll (· == c) (join [c] xs) = xs := by
  rw [splitAll_eq_splitOnP, join_eq_intercalate, ← List.splitOn_eq_splitOnP]
  exact List.splitOn_intercalate c h hxs

/-- The parts of one text begin those of another when the other one is this text, or goes on behind
it with a separator. -/
theorem splitAll_isPrefix_iff {cs ds : List Char} :
    splitAll (· == c) cs <+: splitAll (· == c) ds ↔ ds = cs ∨ cs ++ [c] <+: ds := by
  constructor
  · rintro ⟨rest, hrest⟩
    cases rest with
    | nil =>
      rw [List.append_nil] at hrest
      exact .inl (by rw [← join_splitAll c ds, ← hrest, join_splitAll])
    | cons part rest =>
      have hparts : ∀ x ∈ part :: rest, c ∉ x := fun x hx hc => by
        have hmem : x ∈ splitAll (· == c) ds := hrest ▸ List.mem_append_right _ hx
        simpa using eq_false_of_mem_splitAll hmem c hc
      have hsplit : splitAll (· == c) (cs ++ c :: join [c] (part :: rest)) =
          splitAll (· == c) ds := by
        rw [splitAll_append_cons (p := (· == c)) (beq_self_eq_true c),
          splitAll_join (List.cons_ne_nil _ _) hparts, hrest]
      have hds : cs ++ c :: join [c] (part :: rest) = ds := by
        rw [← join_splitAll c ds, ← hsplit, join_splitAll]
      exact .inr ⟨join [c] (part :: rest), by rw [List.append_assoc, ← hds]; rfl⟩
  · rintro (rfl | ⟨tail, rfl⟩)
    · exact List.prefix_refl _
    · rw [List.append_assoc, List.singleton_append,
        splitAll_append_cons (p := (· == c)) (beq_self_eq_true c)]
      exact List.prefix_append _ _

/-- What is put in front goes to the first part. -/
theorem exists_splitAll_append_left (hbefore : ∀ c ∈ before, p c = false) (cs : List Char) :
    ∃ part rest, splitAll p cs = part :: rest ∧
      splitAll p (before ++ cs) = (before ++ part) :: rest := by
  induction before with
  | nil =>
    obtain ⟨part, rest, h⟩ := exists_splitAll_eq_cons p cs
    exact ⟨part, rest, h, h⟩
  | cons c before ih =>
    obtain ⟨hc, hbefore⟩ := List.forall_mem_cons.mp hbefore
    obtain ⟨part, rest, h, happend⟩ := ih hbefore
    refine ⟨part, rest, h, ?_⟩
    rw [List.cons_append, splitAll, happend]
    exact if_neg (Bool.eq_false_iff.mp hc)

/-- What is put behind goes to the last part. -/
theorem exists_splitAll_append_right (hafter : ∀ c ∈ after, p c = false) (cs : List Char) :
    ∃ parts last, splitAll p cs = parts ++ [last] ∧
      splitAll p (cs ++ after) = parts ++ [last ++ after] := by
  induction cs with
  | nil => exact ⟨[], [], rfl, splitAll_of_forall hafter⟩
  | cons c cs ih =>
    obtain ⟨parts, last, h, happend⟩ := ih
    rw [List.cons_append, splitAll, splitAll, h, happend]
    cases parts with
    | nil =>
      cases hc : p c with
      | true => exact ⟨[[]], last, rfl, rfl⟩
      | false => exact ⟨[], c :: last, rfl, rfl⟩
    | cons part parts =>
      cases hc : p c with
      | true => exact ⟨[] :: part :: parts, last, rfl, rfl⟩
      | false => exact ⟨(c :: part) :: parts, last, rfl, rfl⟩

/-- The separators of a join are no other characters. -/
theorem count_join {d : Char} (hd : c ≠ d) (xs : List (List Char)) :
    (join [d] xs).count c = xs.flatten.count c := by
  induction xs with
  | nil => rfl
  | cons x xs ih =>
    cases xs with
    | nil => simp [join]
    | cons y rest =>
      have hnone : [d].count c = 0 := List.count_eq_zero_of_not_mem (by simpa using hd)
      rw [join, List.count_append, List.count_append, ih, hnone, Nat.add_zero,
        ← List.count_append, ← List.flatten_cons]

/-! ### The last cut -/

/-- A text without a character of the class has no last cut. -/
theorem splitLast_eq_none_iff : splitLast p cs = none ↔ ∀ x ∈ cs, p x = false := by
  induction cs with
  | nil => simp [splitLast]
  | cons c cs ih =>
    rw [splitLast, List.forall_mem_cons, ← ih]
    cases splitLast p cs with
    | some r => simp
    | none => simp

/-- The last cut is where no character of the class follows. -/
theorem splitLast_append_cons (hc : p c = true) (hafter : ∀ x ∈ after, p x = false) :
    splitLast p (before ++ c :: after) = some (before, after) := by
  induction before with
  | nil => rw [List.nil_append, splitLast, splitLast_eq_none_iff.mpr hafter, if_pos hc]
  | cons x before ih => rw [List.cons_append, splitLast, ih]

theorem exists_of_splitLast_eq_some (h : splitLast p cs = some (before, after)) :
    ∃ c, p c = true ∧ cs = before ++ c :: after ∧ ∀ x ∈ after, p x = false := by
  induction cs generalizing before after with
  | nil => cases h
  | cons d cs ih =>
    rw [splitLast] at h
    cases hcs : splitLast p cs with
    | some r =>
      rw [hcs] at h
      obtain ⟨rfl, rfl⟩ := Prod.mk.inj (Option.some.inj h)
      obtain ⟨c, hc, rfl, hafter⟩ := ih hcs
      exact ⟨c, hc, rfl, hafter⟩
    | none =>
      rw [hcs] at h
      dsimp only at h
      split at h
      case isFalse => cases h
      case isTrue hd =>
        obtain ⟨rfl, rfl⟩ := Prod.mk.inj (Option.some.inj h)
        exact ⟨d, hd, rfl, splitLast_eq_none_iff.mp hcs⟩

/-! ### Characters at the ends -/

theorem dropEndWhile_eq_rdropWhile (p : Char → Bool) (cs : List Char) :
    dropEndWhile p cs = cs.rdropWhile p := by
  induction cs with
  | nil => rfl
  | cons c cs ih =>
    rw [dropEndWhile, ih, List.rdropWhile, List.rdropWhile, List.reverse_cons,
      List.dropWhile_append]
    cases h : cs.reverse.dropWhile p with
    | nil => by_cases hc : p c <;> simp [hc]
    | cons d ds =>
      cases hrev : (d :: ds).reverse with
      | nil => exact absurd hrev (by simp)
      | cons e es =>
        rw [List.isEmpty_cons, if_neg Bool.false_ne_true, List.reverse_append, hrev]
        rfl

/-- What is dropped at the end is all of the class. -/
theorem exists_eq_dropEndWhile_append (p : Char → Bool) (cs : List Char) :
    ∃ dropped, cs = dropEndWhile p cs ++ dropped ∧ ∀ c ∈ dropped, p c = true := by
  rw [dropEndWhile_eq_rdropWhile]
  exact ⟨cs.rtakeWhile p, List.rdropWhile_append_rtakeWhile.symm, fun c => List.mem_rtakeWhile_imp⟩

/-- What is of the class and stands at the end is lost. -/
theorem dropEndWhile_append (hafter : ∀ c ∈ after, p c = true) :
    dropEndWhile p (cs ++ after) = dropEndWhile p cs := by
  simp only [dropEndWhile_eq_rdropWhile, List.rdropWhile, List.reverse_append]
  rw [List.dropWhile_append_of_pos (by simpa using hafter)]

theorem dropEndWhile_concat (hc : p c = false) (cs : List Char) :
    dropEndWhile p (cs ++ [c]) = cs ++ [c] := by
  rw [dropEndWhile_eq_rdropWhile]
  exact List.rdropWhile_concat_neg p cs c (by simp [hc])

theorem dropEndWhile_idempotent (p : Char → Bool) (cs : List Char) :
    dropEndWhile p (dropEndWhile p cs) = dropEndWhile p cs := by
  simp only [dropEndWhile_eq_rdropWhile]
  exact List.rdropWhile_idempotent p cs

/-- Characters of other classes are not lost at the start. -/
theorem count_dropWhile (hc : p c = false) (cs : List Char) :
    (cs.dropWhile p).count c = cs.count c := by
  have hnone : (cs.takeWhile p).count c = 0 :=
    List.count_eq_zero_of_not_mem fun hm => by simp [List.mem_takeWhile_imp hm] at hc
  conv_rhs => rw [← List.takeWhile_append_dropWhile (p := p) (l := cs), List.count_append, hnone]
  exact (Nat.zero_add _).symm

/-- Characters of other classes are not lost at the end. -/
theorem count_dropEndWhile (hc : p c = false) (cs : List Char) :
    (dropEndWhile p cs).count c = cs.count c := by
  obtain ⟨dropped, hcs, hdropped⟩ := exists_eq_dropEndWhile_append p cs
  have hnone : dropped.count c = 0 :=
    List.count_eq_zero_of_not_mem fun hm => by simp [hdropped c hm] at hc
  conv_rhs => rw [hcs, List.count_append, hnone]
  exact (Nat.add_zero _).symm

theorem dropEndWhile_eq_self_iff : dropEndWhile (· == c) cs = cs ↔ cs.getLast? ≠ some c := by
  rw [dropEndWhile_eq_rdropWhile, List.rdropWhile_eq_self_iff]
  cases cs using List.reverseRecOn with
  | nil => simp
  | append_singleton cs d => simp

/-- Where all characters of a kind stay, none was at the end. -/
theorem dropEndWhile_eq_self_of_count (h : (dropEndWhile (· == c) cs).count c = cs.count c) :
    dropEndWhile (· == c) cs = cs := by
  obtain ⟨dropped, hcs, hdropped⟩ := exists_eq_dropEndWhile_append (· == c) cs
  have hnone : dropped.count c = 0 := by
    have hcount := congrArg (List.count c) hcs
    rw [List.count_append] at hcount
    omega
  have hnil : dropped = [] := by
    refine List.eq_nil_iff_forall_not_mem.mpr fun d hd => ?_
    obtain rfl : d = c := eq_of_beq (hdropped d hd)
    exact List.count_eq_zero.mp hnone hd
  conv_rhs => rw [hcs, hnil, List.append_nil]

/-! ### Blanks at the ends -/

/-- Trimming the start goes no further than to the first character that is not blank. -/
theorem trimStart_append_cons (hc : isBlank c = false) (cs ds : List Char) :
    trimStart (cs ++ c :: ds) = trimStart cs ++ c :: ds := by
  rw [trimStart, List.dropWhile_append, trimStart]
  split
  case isTrue hempty => simp [List.isEmpty_iff.mp hempty, hc]
  case isFalse => rfl

theorem trim_concat (hc : isBlank c = false) (cs : List Char) :
    trim (cs ++ [c]) = trimStart cs ++ [c] := by
  rw [trim, trimStart_append_cons hc, trimEnd, dropEndWhile_concat hc]

theorem trim_trimStart (cs : List Char) : trim (trimStart cs) = trim cs := by
  rw [trim, trim, trimStart, trimStart, List.dropWhile_idempotent]

/-- Trimming loses nothing but blanks. -/
theorem count_trim (hc : isBlank c = false) (cs : List Char) : (trim cs).count c = cs.count c := by
  rw [trim, trimEnd, count_dropEndWhile hc, trimStart, count_dropWhile hc]

theorem count_flatten_map_trim (hc : isBlank c = false) (xs : List (List Char)) :
    (xs.map trim).flatten.count c = xs.flatten.count c := by
  induction xs with
  | nil => rfl
  | cons x xs ih =>
    rw [List.map_cons, List.flatten_cons, List.flatten_cons, List.count_append, List.count_append,
      count_trim hc, ih]

/-- A text is what trimming it leaves, with blanks around. -/
theorem exists_eq_append_trim_append (cs : List Char) :
    ∃ before after, cs = before ++ trim cs ++ after ∧ allBlank before ∧ allBlank after := by
  obtain ⟨after, hafter, hblank⟩ := exists_eq_dropEndWhile_append isBlank (trimStart cs)
  refine ⟨cs.takeWhile isBlank, after, ?_, ?_, List.all_eq_true.mpr hblank⟩
  · rw [List.append_assoc, trim, trimEnd, ← hafter, trimStart, List.takeWhile_append_dropWhile]
  · exact List.all_eq_true.mpr fun c hc => List.mem_takeWhile_imp hc

/-- Blanks that are put around a text are lost again. -/
theorem trim_append_append (hbefore : allBlank before) (hafter : allBlank after) (cs : List Char) :
    trim (before ++ cs ++ after) = trim cs := by
  rw [allBlank, List.all_eq_true] at hbefore hafter
  rw [trim, trim, trimStart, List.append_assoc, List.dropWhile_append_of_pos hbefore,
    List.dropWhile_append, trimStart]
  split
  case isTrue hempty =>
    rw [List.isEmpty_iff.mp hempty, List.dropWhile_eq_nil_iff.mpr hafter]
  case isFalse => exact dropEndWhile_append hafter

theorem trim_trim (cs : List Char) : trim (trim cs) = trim cs := by
  obtain ⟨before, after, hcs, hbefore, hafter⟩ := exists_eq_append_trim_append cs
  conv_rhs => rw [hcs, trim_append_append hbefore hafter]

end Text

end ApiAssembly
