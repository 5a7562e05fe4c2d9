import ApiAssembly.Proofs.Document.Paths
import ApiAssembly.Proofs.Files.Paths

/-!
# Proofs — Document — paths served under a context path

A path is the list of its segments, the parts between its slashes; slashes at its beginning count
for nothing, and neither do those at the end of a context path.  A key is *served* under a context
path when its new key begins with a slash and has the segments of the context path in front of its
own, unless they are there already (`Serves`).

Which keys are kept goes by the text: those that begin with the context path as it is written.  So a
key is served exactly when the text says what the segments say (`serves_pathUnder_iff`), and that is
wrong of a key that goes on inside the last segment of the context path, and of one that begins with
its segments in another spelling.  To put a document under the context path once more changes
nothing exactly when the new keys begin with the context path as it is written; for this it needs a
slash at its beginning, and none at its end that is lost (`FoundAgain`).
-/

namespace ApiAssembly

/-- The segments of a path: the parts between its slashes, those at the beginning aside. -/
def segments (path : List Char) : List (List Char) :=
  let path := path.dropWhile isSlash
  if path.isEmpty then [] else Text.splitAll isSlash path

/-- The segments of a context path. -/
def contextSegments (context : List Char) : List (List Char) :=
  segments (Text.dropEndWhile isSlash context)

/-- A key serves a path under a context path: it begins with a slash, and has the segments of the
context path in front of those of the path unless they are there. -/
def Serves (context path key : List Char) : Prop :=
  key.head? = some '/' ∧
    segments key = if contextSegments context <+: segments path then segments path
      else contextSegments context ++ segments path

instance (context path key : List Char) : Decidable (Serves context path key) :=
  inferInstanceAs (Decidable (_ ∧ _))

/-- The context path is found in front of the new key of a path: it begins with a slash, and the
path begins with it, or no slash at its end is lost when the path is put behind it. -/
def FoundAgain (context path : List Char) : Prop :=
  let stem := Text.dropEndWhile isSlash context
  context.head? = some '/' ∧
    (context <+: path ∨ context = stem ∨ (context = stem ++ ['/'] ∧ path.dropWhile isSlash ≠ []))

instance (context path : List Char) : Decidable (FoundAgain context path) :=
  inferInstanceAs (Decidable (_ ∧ (_ ∨ _ ∨ _)))

/-- Every path of a document is served under a context path, but for those that begin with a dollar
sign, and it makes no difference to put the document under the context path once more. -/
structure Document.ServedOnce (context : String) (d : Document) : Prop where
  served : ∀ key ∈ d.paths.keys, key.toList.head? ≠ some '$' →
    Serves (Text.trim context.toList) key.toList (pathKey context key).toList
  once : (d.underContextPath context).underContextPath context = d.underContextPath context

/-! ### The segments of a new key -/

variable {context path : List Char}

theorem segments_cons_slash (path : List Char) : segments ('/' :: path) = segments path := rfl

theorem rooted_eq (path : List Char) :
    rooted path = if path.head? = some '/' ∨ path.head? = some '$' then path else '/' :: path := by
  unfold rooted
  split
  case h_1 => exact (if_pos (.inl rfl)).symm
  case h_2 => exact (if_pos (.inr rfl)).symm
  case h_3 hslash hdollar =>
    refine (if_neg ?_).symm
    rintro (h | h)
    · exact (List.head?_eq_some_iff.mp h).elim hslash
    · exact (List.head?_eq_some_iff.mp h).elim hdollar

/-- A slash in front makes no other segments. -/
theorem segments_rooted (path : List Char) : segments (rooted path) = segments path := by
  rw [rooted_eq]
  split
  · rfl
  · exact segments_cons_slash path

/-- A path behind a slash has its segments behind those in front. -/
theorem segments_append_slash {front : List Char} (h : segments front ≠ []) (path : List Char)
    (hpath : path.dropWhile isSlash = path) (hne : path ≠ []) :
    segments (front ++ '/' :: path) = segments front ++ segments path := by
  have hfront : (front.dropWhile isSlash).isEmpty = false := by
    refine Bool.eq_false_iff.mpr fun he => h ?_
    rw [segments, he, if_pos rfl]
  have hboth : (front ++ '/' :: path).dropWhile isSlash =
      front.dropWhile isSlash ++ '/' :: path := by
    rw [List.dropWhile_append, hfront, if_neg Bool.false_ne_true]
  have hsome : (front.dropWhile isSlash ++ '/' :: path).isEmpty = false := by simp
  have hempty : path.isEmpty = false := by simpa using hne
  rw [segments, segments, segments, hboth, hpath, hfront, hsome, hempty, if_neg Bool.false_ne_true,
    if_neg Bool.false_ne_true, if_neg Bool.false_ne_true]
  exact Text.splitAll_append_cons rfl _ _

theorem segments_dropWhile (path : List Char) :
    segments (path.dropWhile isSlash) = segments path := by
  rw [segments, List.dropWhile_idempotent, segments]

theorem isEmpty_dropEndWhile (h : contextSegments context ≠ []) :
    (Text.dropEndWhile isSlash context).isEmpty = false := by
  refine Bool.eq_false_iff.mpr fun he => h ?_
  rw [contextSegments, List.isEmpty_iff.mp he]
  rfl

/-- A path that is joined to a context path has its segments behind those of the context path. -/
theorem segments_joinPaths (h : contextSegments context ≠ []) (path : List Char) :
    segments (joinPaths context path) = contextSegments context ++ segments path := by
  rw [joinPaths, isEmpty_dropEndWhile h, if_neg Bool.false_ne_true]
  split
  case isTrue hpath =>
    rw [← segments_dropWhile path, List.isEmpty_iff.mp hpath]
    exact (List.append_nil _).symm
  case isFalse hpath =>
    rw [segments_append_slash h _ (List.dropWhile_idempotent isSlash path)
      (mt List.isEmpty_iff.mpr hpath), segments_dropWhile]
    rfl

/-- The new key of a path begins as the context path does, behind a slash if need be. -/
theorem head?_pathUnder (hne : context ≠ []) (hdollar : context.head? ≠ some '$')
    (path : List Char) : (pathUnder context path).head? = some '/' := by
  obtain ⟨c, cs, rfl⟩ := List.exists_cons_of_ne_nil hne
  obtain ⟨rest, hrest⟩ := exists_behind_eq_cons c cs path
  rw [pathUnder_eq, hrest, rooted_eq]
  split
  case isTrue h => exact h.resolve_right hdollar
  case isFalse => rfl

theorem ne_nil_of_contextSegments (h : contextSegments context ≠ []) : context ≠ [] := by
  rintro rfl
  exact h rfl

/-- **A new key serves its path exactly when the text of the context path is in front of the path
where its segments are.** -/
theorem serves_pathUnder_iff (h : contextSegments context ≠ [])
    (hdollar : context.head? ≠ some '$') :
    Serves context path (pathUnder context path) ↔
      (context <+: path ↔ contextSegments context <+: segments path) := by
  have hlonger : segments path ≠ contextSegments context ++ segments path := by
    simpa using h
  rw [Serves, and_iff_right (head?_pathUnder (ne_nil_of_contextSegments h) hdollar path),
    pathUnder_eq, segments_rooted]
  by_cases htext : context <+: path
  · rw [behind_of_begins htext, iff_true_left htext]
    split
    case isTrue hseg => exact iff_of_true rfl hseg
    case isFalse hseg => exact iff_of_false hlonger hseg
  · rw [behind_of_not_begins htext, segments_joinPaths h, iff_false_left htext]
    split
    case isTrue hseg => exact iff_of_false hlonger.symm (not_not_intro hseg)
    case isFalse hseg => exact iff_of_true rfl hseg

/-! ### Once more -/

theorem rooted_rooted (path : List Char) : rooted (rooted path) = rooted path := by
  rw [rooted_eq path]
  split
  case isTrue h => rw [rooted_eq, if_pos h]
  case isFalse => rfl

/-- A new key stays where it is exactly when it begins with the text of the context path. -/
theorem pathUnder_pathUnder_eq_iff (h : contextSegments context ≠ []) :
    pathUnder context (pathUnder context path) = pathUnder context path ↔
      context <+: pathUnder context path := by
  constructor
  · intro heq
    by_contra htext
    have hseg := congrArg segments heq
    rw [pathUnder_eq context (pathUnder context path), segments_rooted,
      behind_of_not_begins htext, segments_joinPaths h] at hseg
    exact h (by simpa using hseg)
  · intro htext
    rw [pathUnder_eq context (pathUnder context path), behind_of_begins htext, pathUnder_eq,
      rooted_rooted]

/-- A context path that is joined to a path is found in front of it unless slashes at its end are
lost. -/
theorem prefix_joinPaths_iff (h : contextSegments context ≠ []) (path : List Char) :
    context <+: joinPaths context path ↔
      context = Text.dropEndWhile isSlash context ∨
        (context = Text.dropEndWhile isSlash context ++ ['/'] ∧ path.dropWhile isSlash ≠ []) := by
  obtain ⟨dropped, hcontext, hdropped⟩ := Text.exists_eq_dropEndWhile_append isSlash context
  rw [joinPaths, isEmpty_dropEndWhile h, if_neg Bool.false_ne_true]
  generalize Text.dropEndWhile isSlash context = stem at hcontext
  subst hcontext
  have hpath : ∀ rest, path.dropWhile isSlash ≠ '/' :: rest := by
    intro rest hrest
    have hno := List.head?_dropWhile_not isSlash path
    rw [hrest] at hno
    cases hno
  generalize path.dropWhile isSlash = path at hpath ⊢
  rw [List.append_right_eq_self, List.append_cancel_left_eq]
  cases path with
  | nil =>
    rw [List.isEmpty_nil, if_pos rfl, or_iff_left (fun h => h.2 rfl)]
    constructor
    · intro hprefix
      have := hprefix.length_le
      rw [List.length_append] at this
      exact List.eq_nil_of_length_eq_zero (by omega)
    · rintro rfl
      simp
  | cons c cs =>
    rw [List.isEmpty_cons, if_neg Bool.false_ne_true, List.prefix_append_right_inj,
      List.prefix_cons_iff]
    refine or_congr_right ⟨?_, fun h => ⟨[], h.1, List.nil_prefix⟩⟩
    rintro ⟨more, rfl, hmore⟩
    -- A second slash would begin the path.
    cases more with
    | nil => exact ⟨rfl, List.cons_ne_nil _ _⟩
    | cons d ds =>
      obtain ⟨rfl, -⟩ := List.cons_prefix_cons.mp hmore
      have hd : isSlash d = true := hdropped d (by simp)
      exact absurd (congrArg (· :: cs) (eq_of_beq hd)) (hpath cs)

/-- The context path is found in front of the new key of a path exactly when it begins with a slash,
and the path begins with it or no slash at its end is lost. -/
theorem prefix_pathUnder_iff (h : contextSegments context ≠ [])
    (hdollar : context.head? ≠ some '$') (path : List Char) :
    context <+: pathUnder context path ↔ FoundAgain context path := by
  have hne := ne_nil_of_contextSegments h
  have hhead := head?_pathUnder hne hdollar path
  by_cases hslash : context.head? = some '/'
  · have hbehind : pathUnder context path = behind context path := by
      obtain ⟨cs, rfl⟩ := List.head?_eq_some_iff.mp hslash
      obtain ⟨rest, hrest⟩ := exists_behind_eq_cons '/' cs path
      rw [pathUnder_eq, rooted_eq, if_pos (.inl (by rw [hrest]; rfl))]
    rw [FoundAgain, and_iff_right hslash, hbehind]
    by_cases htext : context <+: path
    · rw [behind_of_begins htext]
      exact iff_of_true htext (.inl htext)
    · rw [behind_of_not_begins htext, or_iff_right htext, prefix_joinPaths_iff h]
  · refine iff_of_false (fun hprefix => hslash ?_) fun hfound => hslash hfound.1
    obtain ⟨c, cs, rfl⟩ := List.exists_cons_of_ne_nil hne
    obtain ⟨rest, hrest⟩ := hprefix
    rw [← hrest] at hhead
    exact hhead

namespace Document

variable {context : String} {d : Document}

theorem pathKey_of_contextSegments (h : contextSegments (Text.trim context.toList) ≠ [])
    (key : String) :
    (pathKey context key).toList = pathUnder (Text.trim context.toList) key.toList := by
  have hne := ne_nil_of_contextSegments h
  simp only [pathKey, List.isEmpty_iff, if_neg hne, String.toList_ofList]

theorem pathKey_pathKey_eq_iff (h : contextSegments (Text.trim context.toList) ≠ [])
    (key : String) : pathKey context (pathKey context key) = pathKey context key ↔
      Text.trim context.toList <+: (pathKey context key).toList := by
  rw [← String.toList_inj, pathKey_of_contextSegments h, pathKey_of_contextSegments h,
    pathUnder_pathUnder_eq_iff h]

/-- Nothing but the paths of a document is put under a context path. -/
theorem underContextPath_eq (context : String) (d : Document) :
    d.underContextPath context = { d with paths := (d.underContextPath context).paths } := by
  unfold underContextPath
  dsimp only
  split <;> rfl

/-- The keys under a context path are the new keys, each at its first place. -/
theorem keys_paths_underContextPath (hd : d.paths.keys.Nodup) (context : String) :
    (d.underContextPath context).paths.keys = (d.paths.keys.map (pathKey context)).eraseDups := by
  rw [paths_underContextPath hd, Keyed.keys_ofList]
  simp [Keyed.keys, Function.comp_def]

/-- **To put a document under a context path once more changes nothing exactly when every new key
begins with the text of the context path.** -/
theorem underContextPath_twice_iff (hd : d.paths.keys.Nodup)
    (h : contextSegments (Text.trim context.toList) ≠ []) :
    (d.underContextPath context).underContextPath context = d.underContextPath context ↔
      ∀ key ∈ d.paths.keys, Text.trim context.toList <+: (pathKey context key).toList := by
  have hnew : (d.underContextPath context).paths.keys.Nodup := by
    rw [keys_paths_underContextPath hd]
    exact nodup_eraseDups _
  have hstay : (∀ key ∈ (d.underContextPath context).paths.keys, pathKey context key = key) ↔
      ∀ key ∈ d.paths.keys, Text.trim context.toList <+: (pathKey context key).toList := by
    rw [keys_paths_underContextPath hd]
    simp only [List.mem_eraseDups, List.forall_mem_map, pathKey_pathKey_eq_iff h]
  rw [← hstay]
  constructor
  · intro htwice
    have hkeys := keys_paths_underContextPath hnew context
    rw [htwice] at hkeys
    -- No two keys meet, as there are as many of them as before.
    have hapart : ((d.underContextPath context).paths.keys.map (pathKey context)).Nodup := by
      rw [← length_eraseDups_eq_iff, ← hkeys, List.length_map]
    rw [eraseDups_of_nodup hapart] at hkeys
    intro key hkey
    exact List.map_eq_map_iff.mp (hkeys.symm.trans (List.map_id _).symm) key hkey
  · intro hkeys
    have hentries : (d.underContextPath context).paths.map
        (fun entry => (pathKey context entry.1, entry.2)) = (d.underContextPath context).paths := by
      refine (List.map_congr_left fun entry he => ?_).trans (List.map_id _)
      rw [hkeys entry.1 (List.mem_map_of_mem he)]
      rfl
    rw [underContextPath_eq context (d.underContextPath context), paths_underContextPath hnew,
      hentries, Keyed.ofList_of_nodup hnew]

/-- **When all paths are served once.**  The keys of a document under a context path are the new
keys of its paths.  Every path is served there, and that once, exactly when the text of the context
path is in front of a path where its segments are, and is found again in front of every new key. -/
theorem servedOnce_iff (hd : d.paths.keys.Nodup)
    (hsegments : contextSegments (Text.trim context.toList) ≠ [])
    (hdollar : (Text.trim context.toList).head? ≠ some '$') :
    let context' := Text.trim context.toList
    (d.underContextPath context).paths.keys = (d.paths.keys.map (pathKey context)).eraseDups ∧
    (d.ServedOnce context ↔
      (∀ key ∈ d.paths.keys, key.toList.head? ≠ some '$' →
        (context' <+: key.toList ↔ contextSegments context' <+: segments key.toList)) ∧
      ∀ key ∈ d.paths.keys, FoundAgain context' key.toList) := by
  intro context'
  have hkey (key : String) : (pathKey context key).toList = pathUnder context' key.toList :=
    pathKey_of_contextSegments hsegments key
  have hserves : (∀ key ∈ d.paths.keys, key.toList.head? ≠ some '$' →
      Serves context' key.toList (pathKey context key).toList) ↔
      ∀ key ∈ d.paths.keys, key.toList.head? ≠ some '$' →
        (context' <+: key.toList ↔ contextSegments context' <+: segments key.toList) :=
    forall₃_congr fun key _ _ => hkey key ▸ serves_pathUnder_iff hsegments hdollar
  have honce : (d.underContextPath context).underContextPath context = d.underContextPath context ↔
      ∀ key ∈ d.paths.keys, FoundAgain context' key.toList := by
    rw [underContextPath_twice_iff hd hsegments]
    exact forall₂_congr fun key _ => hkey key ▸ prefix_pathUnder_iff hsegments hdollar key.toList
  refine ⟨keys_paths_underContextPath hd context, ?_⟩
  rw [← hserves, ← honce]
  exact ⟨fun h => ⟨h.served, h.once⟩, fun h => ⟨h.1, h.2⟩⟩

/-- A document with a path at the context path, one under it, and two others. -/
def ownersDocument : Document where
  paths := [("/api", {}), ("/api/owners", {}), ("pets", {}), ("/", {})]

theorem servedOnce_ownersDocument :
    ownersDocument.paths.keys.Nodup ∧ contextSegments (Text.trim "/api".toList) ≠ [] ∧
      (Text.trim "/api".toList).head? ≠ some '$' ∧ ownersDocument.ServedOnce "/api" := by
  have hkeys : ownersDocument.paths.keys.Nodup := by decide
  have hsegments : contextSegments (Text.trim "/api".toList) ≠ [] := by decide
  have hdollar : (Text.trim "/api".toList).head? ≠ some '$' := by decide
  obtain ⟨-, hiff⟩ := servedOnce_iff hkeys hsegments hdollar
  exact ⟨hkeys, hsegments, hdollar, hiff.mpr ⟨by decide, by decide⟩⟩

/-- A context path without a slash in front comes in front of its own paths again, and one with a
slash keeps a path that goes on inside its last segment. -/
theorem not_servedOnce_spelledApart :
    ¬ ServedOnce "api" { paths := [("/api/pets", {})] } ∧
      ¬ ServedOnce "/api" { paths := [("/apis", {})] } :=
  ⟨fun h => absurd (h.served "/api/pets" (by decide) (by decide)) (by decide),
    fun h => absurd (h.served "/apis" (by decide) (by decide)) (by decide)⟩

end Document

end ApiAssembly
