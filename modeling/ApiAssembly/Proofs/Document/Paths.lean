import ApiAssembly.ContextPath
import ApiAssembly.Proofs.Keyed.Distinct

/-!
# Proofs — Document — paths that meet under a context path

`Document.underContextPath` writes the item of every path under the key that the path has there
(`pathKey`).  A document keeps its paths (`Document.KeepsPaths`) when it has as many of them after
that as before, and finds the item of each under its new key.

A key that begins with the context path stays, and another one is joined to it.  Two keys that stay
are told apart by what they were; others meet (`pathUnder_eq_iff`):

* two keys that are joined, when they differ in the slashes at their beginning alone;
* a key that stays and one that is joined, when the first is the second behind the context path.

A document keeps its paths exactly when no two of its keys meet (`Document.keepsPaths_iff`).  Where
two meet, the later item takes the place of the earlier one.
-/

namespace ApiAssembly

/-- Two paths get one key under a context path: either both are joined to it and they differ in the
slashes at their beginning alone, or one of them begins with it and is the other behind it. -/
def Meet (context a b : List Char) : Prop :=
  (¬ context <+: a ∧ ¬ context <+: b ∧ a.dropWhile isSlash = b.dropWhile isSlash) ∨
    (context <+: a ∧ ¬ context <+: b ∧ a = joinPaths context b) ∨
    (¬ context <+: a ∧ context <+: b ∧ b = joinPaths context a)

instance (context a b : List Char) : Decidable (Meet context a b) :=
  inferInstanceAs (Decidable ((_ ∧ _) ∨ (_ ∧ _) ∨ _))

/-- The key of a path of a document under a context path. -/
def pathKey (context key : String) : String :=
  let context := Text.trim context.toList
  if context.isEmpty then key else String.ofList (pathUnder context key.toList)

/-- Under a context path a document has as many paths as before, and the item of each of them
under its new key. -/
def Document.KeepsPaths (context : String) (d : Document) : Prop :=
  (d.underContextPath context).paths.length = d.paths.length ∧
    ∀ entry ∈ d.paths, (d.underContextPath context).paths.get? (pathKey context entry.1) =
      some entry.2

/-! ### The key of a path -/

/-- A path behind a context path that it does not begin with. -/
def behind (context path : List Char) : List Char :=
  if context.isPrefixOf path then path else joinPaths context path

/-- A text with a slash in front, unless it begins with a slash or a dollar sign. -/
def rooted (path : List Char) : List Char :=
  match path with
  | '/' :: _ => path
  | '$' :: _ => path
  | _        => '/' :: path

theorem pathUnder_eq (context path : List Char) :
    pathUnder context path = rooted (behind context path) := rfl

theorem behind_of_begins {context path : List Char} (h : context <+: path) :
    behind context path = path :=
  if_pos (List.isPrefixOf_iff_prefix.mpr h)

theorem behind_of_not_begins {context path : List Char} (h : ¬ context <+: path) :
    behind context path = joinPaths context path :=
  if_neg (mt List.isPrefixOf_iff_prefix.mp h)

/-- Texts that begin with one character are told apart when they are rooted. -/
theorem rooted_cons_inj {c : Char} {as bs : List Char} :
    rooted (c :: as) = rooted (c :: bs) ↔ c :: as = c :: bs := by
  refine ⟨fun h => ?_, fun h => h ▸ rfl⟩
  by_cases hslash : c = '/'
  · subst hslash
    exact h
  by_cases hdollar : c = '$'
  · subst hdollar
    exact h
  · have hrooted (cs : List Char) : rooted (c :: cs) = '/' :: c :: cs := by
      rw [rooted]
      · exact fun _ heq => hslash (List.cons.inj heq).1
      · exact fun _ heq => hdollar (List.cons.inj heq).1
    rw [hrooted, hrooted] at h
    exact (List.cons.inj h).2

/-- Without the slashes at its end a text is empty, or begins as it did. -/
theorem dropEndWhile_isSlash_cons (c : Char) (cs : List Char) :
    (c = '/' ∧ Text.dropEndWhile isSlash (c :: cs) = []) ∨
      ∃ rest, Text.dropEndWhile isSlash (c :: cs) = c :: rest := by
  rw [Text.dropEndWhile]
  split
  case h_1 =>
    by_cases hc : c = '/'
    · exact .inl ⟨hc, if_pos (hc ▸ rfl)⟩
    · exact .inr ⟨[], if_neg fun h => hc (eq_of_beq h)⟩
  case h_2 d ds _ => exact .inr ⟨d :: ds, rfl⟩

/-- A path behind a context path begins as the context path does. -/
theorem exists_behind_eq_cons (c : Char) (cs path : List Char) :
    ∃ rest, behind (c :: cs) path = c :: rest := by
  by_cases h : c :: cs <+: path
  · obtain ⟨rest, rfl⟩ := h
    exact ⟨cs ++ rest, behind_of_begins (List.prefix_append _ _)⟩
  rw [behind_of_not_begins h, joinPaths]
  obtain ⟨rfl, hempty⟩ | ⟨rest, hrest⟩ := dropEndWhile_isSlash_cons c cs
  · exact ⟨path.dropWhile isSlash, by rw [hempty]; rfl⟩
  · rw [hrest, if_neg (by exact Bool.false_ne_true)]
    split
    · exact ⟨rest, rfl⟩
    · exact ⟨rest ++ '/' :: path.dropWhile isSlash, rfl⟩

/-- What is joined to a context path is told apart but for the slashes at its beginning. -/
theorem joinPaths_inj {context a b : List Char} :
    joinPaths context a = joinPaths context b ↔ a.dropWhile isSlash = b.dropWhile isSlash := by
  refine ⟨fun h => ?_, fun h => by rw [joinPaths, joinPaths, h]⟩
  rw [joinPaths, joinPaths] at h
  generalize Text.dropEndWhile isSlash context = stem at h
  generalize a.dropWhile isSlash = a at h ⊢
  generalize b.dropWhile isSlash = b at h ⊢
  cases stem with
  | nil => exact (List.cons.inj h).2
  | cons c cs =>
    cases a <;> cases b <;> simp_all

/-- **Two paths get one key under a context path exactly when they are equal or meet.** -/
theorem pathUnder_eq_iff {context a b : List Char} (h : context ≠ []) :
    pathUnder context a = pathUnder context b ↔ a = b ∨ Meet context a b := by
  obtain ⟨c, cs, rfl⟩ := List.exists_cons_of_ne_nil h
  have hkeys : pathUnder (c :: cs) a = pathUnder (c :: cs) b ↔
      behind (c :: cs) a = behind (c :: cs) b := by
    obtain ⟨ra, ha⟩ := exists_behind_eq_cons c cs a
    obtain ⟨rb, hb⟩ := exists_behind_eq_cons c cs b
    rw [pathUnder_eq, pathUnder_eq, ha, hb, rooted_cons_inj]
  rw [hkeys, Meet]
  by_cases ha : c :: cs <+: a <;> by_cases hb : c :: cs <+: b
  · rw [behind_of_begins ha, behind_of_begins hb]
    simp [ha, hb]
  · have hne : a ≠ b := fun heq => hb (heq ▸ ha)
    rw [behind_of_begins ha, behind_of_not_begins hb]
    simp [ha, hb, hne]
  · have hne : a ≠ b := fun heq => ha (heq ▸ hb)
    rw [behind_of_not_begins ha, behind_of_begins hb]
    simp [ha, hb, hne, eq_comm]
  · have himp : a = b → a.dropWhile isSlash = b.dropWhile isSlash := fun heq => heq ▸ rfl
    rw [behind_of_not_begins ha, behind_of_not_begins hb, joinPaths_inj]
    simpa [ha, hb] using himp

theorem not_meet_nil (a b : List Char) : ¬ Meet [] a b := by
  simp [Meet]

/-- Two paths of a document have one key under a context path exactly when they are equal or
meet. -/
theorem pathKey_eq_iff {context a b : String} :
    pathKey context a = pathKey context b ↔
      a = b ∨ Meet (Text.trim context.toList) a.toList b.toList := by
  rw [pathKey, pathKey]
  split
  case isTrue h =>
    rw [List.isEmpty_iff.mp h]
    simp [not_meet_nil]
  case isFalse h =>
    rw [String.ofList_inj, pathUnder_eq_iff (mt List.isEmpty_iff.mpr h), String.toList_inj]

/-! ### The paths of a document -/

namespace Document

/-- Under a context path the items of a document are written under their new keys, one after the
other. -/
theorem paths_underContextPath {d : Document} (hd : d.paths.keys.Nodup) (context : String) :
    (d.underContextPath context).paths =
      Keyed.ofList (d.paths.map fun entry => (pathKey context entry.1, entry.2)) := by
  rw [underContextPath]
  split
  case isTrue h =>
    simp only [pathKey, if_pos h, List.map_id']
    exact (Keyed.ofList_of_nodup hd).symm
  case isFalse h => simp only [pathKey, if_neg h]

/-- **A document keeps its paths under a context path exactly when no two of them meet there.** -/
theorem keepsPaths_iff {d : Document} (hd : d.paths.keys.Nodup) (context : String) :
    d.KeepsPaths context ↔ ∀ a ∈ d.paths.keys, ∀ b ∈ d.paths.keys, a ≠ b →
      ¬ Meet (Text.trim context.toList) a.toList b.toList := by
  let entries := d.paths.map fun entry => (pathKey context entry.1, entry.2)
  have hkeys : Keyed.keys entries = d.paths.keys.map (pathKey context) := by
    simp [entries, Keyed.keys]
  -- A map has as many entries as it is made of when their keys are apart.
  have hnodup : (Keyed.keys entries).Nodup ↔ ∀ a ∈ d.paths.keys, ∀ b ∈ d.paths.keys, a ≠ b →
      ¬ Meet (Text.trim context.toList) a.toList b.toList := by
    rw [hkeys, List.nodup_map_iff_inj_on hd]
    refine forall₄_congr fun a _ b _ => ?_
    rw [pathKey_eq_iff]
    tauto
  rw [KeepsPaths, paths_underContextPath hd, ← hnodup, ← Keyed.length_ofList_eq_iff]
  refine ⟨fun h => by simpa [entries] using h.1, fun h => ⟨by simpa [entries] using h, ?_⟩⟩
  have h := Keyed.length_ofList_eq_iff.mp h
  intro entry he
  rw [Keyed.ofList_of_nodup h]
  exact Keyed.get?_of_mem h (List.mem_map_of_mem he)

/-- A document with a path that begins with the context path and two others. -/
theorem keepsPaths_of_apart :
    KeepsPaths "/api" { paths := [("/pets", { get := some {} }), ("/api/owners", {}), ("/", {})] } :=
  (keepsPaths_iff (by decide) "/api").mpr (by decide)

/-- The item of a path that begins with the context path gives way to that of another one. -/
theorem not_keepsPaths_of_meet :
    ¬ KeepsPaths "/api"
      { paths := [("/api/pets", { get := some {} }), ("/pets", { post := some {} })] } :=
  fun h => absurd h.1 (by decide)

end Document

end ApiAssembly
