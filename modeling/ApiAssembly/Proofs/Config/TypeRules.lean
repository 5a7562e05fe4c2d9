import ApiAssembly.CommandLine.LatinSlugs
import ApiAssembly.Config.Context
import ApiAssembly.Proofs.Text.Splitting

/-!
# Proofs — Config — which type rules are found

The target of a key is that of the first rule with this key and a target that is known
(`TypeRule.get?_foldl_readEntry`).  A look-up makes the key of a type from its name and arguments;
the key of a rule is made from the type as it is written, of which all closing brackets are taken
off the end, and the rest is cut at every comma and trimmed
(`TypeRule.WrittenType.configuredKey_chars`).

The two keys are the same, and the rule is found, exactly when this loses nothing
(`TypeRule.found_iff`): behind the last argument stands no closing bracket that is its own, unless a
blank follows, and around the commas inside of arguments are no blanks.  So a rule for a list of a
list is found only if there is a blank between the two closing brackets
(`TypeRule.found_spacedPage`, `TypeRule.not_found_pageOfPets`).
-/

namespace ApiAssembly

/-! ### Items between commas -/

section Items

variable {c : Char} {cs before after : List Char}

theorem ne_comma_of_isBlank (h : isBlank c) : (c == ',') = false :=
  beq_eq_false_iff_ne.mpr fun he => by rw [he] at h; exact absurd h (by decide)

theorem parseItems_append_comma (cs ds : List Char) :
    parseItems (cs ++ ',' :: ds) = parseItems cs ++ parseItems ds := by
  rw [parseItems, Text.splitAll_append_cons (p := (· == ',')) rfl, List.map_append,
    List.filter_append]
  rfl

/-- The items of a join are those of each text. -/
theorem parseItems_join (xs : List (List Char)) :
    parseItems (Text.join [','] xs) = xs.flatMap parseItems := by
  induction xs with
  | nil => rfl
  | cons x xs ih =>
    cases xs with
    | nil => exact (List.append_nil _).symm
    | cons y rest =>
      rw [Text.join, List.append_assoc, List.singleton_append, parseItems_append_comma, ih,
        ← List.flatMap_cons]

/-- Blanks around a text are around its first and its last item. -/
theorem parseItems_append_append (hbefore : Text.allBlank before) (hafter : Text.allBlank after) :
    parseItems (before ++ cs ++ after) = parseItems cs := by
  have hbefore' : ∀ c ∈ before, (c == ',') = false := fun c hc =>
    ne_comma_of_isBlank (List.all_eq_true.mp hbefore c hc)
  have hafter' : ∀ c ∈ after, (c == ',') = false := fun c hc =>
    ne_comma_of_isBlank (List.all_eq_true.mp hafter c hc)
  have hnone : Text.allBlank [] := rfl
  have htrimLeft (part : List Char) : Text.trim (before ++ part) = Text.trim part := by
    rw [← Text.trim_append_append hbefore hnone part, List.append_nil]
  have htrimRight (part : List Char) : Text.trim (part ++ after) = Text.trim part :=
    Text.trim_append_append hnone hafter part
  obtain ⟨parts, last, hsplit, hright⟩ := Text.exists_splitAll_append_right hafter' (before ++ cs)
  obtain ⟨part, rest, hcs, hleft⟩ := Text.exists_splitAll_append_left hbefore' cs
  rw [parseItems, hright, List.map_append, List.map_singleton, htrimRight, ← List.map_singleton,
    ← List.map_append, ← hsplit, hleft, List.map_cons, htrimLeft, ← List.map_cons, ← hcs]
  rfl

theorem parseItems_trim (cs : List Char) : parseItems (Text.trim cs) = parseItems cs := by
  obtain ⟨before, after, hcs, hbefore, hafter⟩ := Text.exists_eq_append_trim_append cs
  conv_rhs => rw [hcs, parseItems_append_append hbefore hafter]

/-- Only commas and blanks are lost when a text is cut into its items. -/
theorem count_join_parseItems (hblank : isBlank c = false) (hc : c ≠ ',') (cs : List Char) :
    (Text.join [','] (parseItems cs)).count c = cs.count c := by
  rw [Text.count_join hc, parseItems, List.flatten_filter_not_isEmpty,
    Text.count_flatten_map_trim hblank, ← Text.count_join hc, Text.join_splitAll]

theorem comma_not_mem_of_mem_parseItems {item : List Char} (h : item ∈ parseItems cs) :
    ',' ∉ item := by
  obtain ⟨part, hpart, rfl⟩ := List.mem_map.mp (List.mem_filter.mp h).1
  obtain ⟨before, after, htrim, -, -⟩ := Text.exists_eq_append_trim_append part
  intro hm
  have := Text.eq_false_of_mem_splitAll hpart ',' (by rw [htrim]; simp [hm])
  exact absurd this (by decide)

/-- The pieces of a text between commas are items as they stand. -/
def Itemized (cs : List Char) : Prop :=
  ∀ piece ∈ Text.splitAll (· == ',') cs, piece ≠ [] ∧ Text.trim piece = piece

instance (cs : List Char) : Decidable (Itemized cs) := inferInstanceAs (Decidable (∀ _ ∈ _, _))

/-- To join the items of a text gives it back exactly when its pieces are its items. -/
theorem join_parseItems_eq_iff (hitems : parseItems cs ≠ []) :
    Text.join [','] (parseItems cs) = cs ↔ Itemized cs := by
  constructor
  · intro h piece hpiece
    have hsplit : Text.splitAll (· == ',') cs = parseItems cs := by
      conv_lhs => rw [← h]
      exact Text.splitAll_join hitems fun _ => comma_not_mem_of_mem_parseItems
    rw [hsplit] at hpiece
    obtain ⟨hmap, hne⟩ := List.mem_filter.mp hpiece
    obtain ⟨part, -, rfl⟩ := List.mem_map.mp hmap
    exact ⟨by simpa using hne, Text.trim_trim part⟩
  · intro h
    have hmap : (Text.splitAll (· == ',') cs).map Text.trim = Text.splitAll (· == ',') cs :=
      (List.map_congr_left fun piece hpiece => (h piece hpiece).2).trans (List.map_id _)
    have hfilter : ((Text.splitAll (· == ',') cs).filter fun piece => !piece.isEmpty) =
        Text.splitAll (· == ',') cs :=
      List.filter_eq_self.mpr fun piece hpiece => by simpa using (h piece hpiece).1
    rw [parseItems, hmap, hfilter, Text.join_splitAll]

theorem itemized_join_iff {xs : List (List Char)} (hxs : xs ≠ []) :
    Itemized (Text.join [','] xs) ↔ ∀ x ∈ xs, Itemized x := by
  rw [Itemized, Text.splitAll_join_eq_flatMap hxs]
  simp only [List.mem_flatMap, forall_exists_index, and_imp, Itemized]
  exact ⟨fun h x hx piece hpiece => h piece x hx hpiece, fun h piece x hx => h x hx piece⟩

end Items

namespace TypeRule

/-! ### The target of a key -/

section Targets

variable {start key : String} {catalog : TypeCatalog} {t : Table} {e : String × String}

/-- The key that an entry is a rule for. -/
def keyOf? (start : String) (e : String × String) : Option String :=
  (Text.strip? start.toList e.1.toList).map fun configured => String.ofList (configuredKey configured)

/-- The target that an entry gives to a key, if it is in the catalog. -/
def targetFor? (start : String) (catalog : TypeCatalog) (key : String) (e : String × String) :
    Option String :=
  if keyOf? start e == some key && catalog.holds (trimText e.2) then some (trimText e.2) else none

/-- One entry, by the key that it is a rule for. -/
theorem readEntry_eq : readEntry start catalog t e =
    match keyOf? start e with
    | none   => t
    | some k =>
      if k.isEmpty || t.targets.has k then t
      else if catalog.holds (trimText e.2) then
        { t with targets := t.targets.insert k (trimText e.2) }
      else { t with warnings := t.warnings ++ [.unknownSchemaTarget k (trimText e.2)] } := by
  rw [readEntry, keyOf?]
  cases Text.strip? start.toList e.1.toList <;> rfl

theorem get?_readEntry (hkey : key ≠ "") : (readEntry start catalog t e).targets.get? key =
    (t.targets.get? key).or (targetFor? start catalog key e) := by
  rw [readEntry_eq, targetFor?]
  cases keyOf? start e with
  | none => simp
  | some k =>
    by_cases hk : k = key
    · subst hk
      have hne : k.isEmpty = false := by simpa using hkey
      cases hget : t.targets.get? k with
      | some target => simp [Keyed.has, hget]
      | none =>
        cases hholds : catalog.holds (trimText e.2) with
        | true => simp [Keyed.has, hget, hne, Keyed.get?_insert_self]
        | false => simp [Keyed.has, hget, hne]
    · rw [beq_false_of_ne (fun h => hk (Option.some.inj h)), Bool.false_and,
        if_neg Bool.false_ne_true, Option.or_none]
      dsimp only
      split
      · rfl
      · split
        · exact Keyed.get?_insert_of_ne _ _ hk
        · rfl

/-- **The target of a key** is that of the first entry which gives it one. -/
theorem get?_foldl_readEntry (hkey : key ≠ "") (entries : List (String × String)) :
    (entries.foldl (readEntry start catalog) t).targets.get? key =
      (t.targets.get? key).or (entries.findSome? (targetFor? start catalog key)) := by
  induction entries generalizing t with
  | nil => exact Option.or_none.symm
  | cons e entries ih =>
    rw [List.foldl_cons, ih, get?_readEntry hkey, Option.or_assoc, List.findSome?_cons]
    cases targetFor? start catalog key e <;> rfl

end Targets

/-! ### Types as they are written -/

/-- A character that can be in the name of a type. -/
def isNameChar (c : Char) : Bool := !(isBlank c || c == ',' || c == '<' || c == '>')

/-- A type with arguments as a rule writes it: the name and each argument with blanks around. -/
structure WrittenType where
  name : List Char
  arguments : List (List Char)
  after : List Char := []
  name_named : name.any isNameChar := by decide
  name_bracket : '<' ∉ name := by decide
  arguments_ne_nil : arguments ≠ [] := by decide
  arguments_named : ∀ a ∈ arguments, a.any isNameChar := by decide
  after_blank : Text.allBlank after := by decide

namespace WrittenType

variable (w : WrittenType)

/-- What stands between the outermost brackets. -/
def inner : List Char := Text.join [','] w.arguments

def chars : List Char := w.name ++ '<' :: w.inner ++ '>' :: w.after

/-- The name of the type. -/
def typeName : String := String.ofList (Text.trim w.name)

/-- The arguments of the type. -/
def typeArguments : List String := w.arguments.map fun a => String.ofList (Text.trim a)

/-- The key under which the type is looked up. -/
def key : String :=
  String.ofList (typeKey w.typeName.toList (w.typeArguments.map String.toList))

/-- The entry of a rule for the type. -/
def entry (target : String) : String × String :=
  (Key.schemaStart ++ String.ofList w.chars, target)

/-- The rule for the type is found: where an entry has the type as it is written here, it is the
first one for this type, and its target is known, then the target is that of the type. -/
def Found : Prop :=
  ∀ (c : Context) (before after : List (String × String)) (target : String),
    entriesUnder c.layers Key.schemaStart = before ++ w.entry target :: after →
    (∀ e ∈ before, keyOf? Key.schemaStart e ≠ some w.key) →
    c.catalog.holds (trimText target) →
    c.typeRules.target? w.typeName w.typeArguments = some (trimText target)

/-! ### The key of a rule -/

/-- The items that are read as arguments: no closing bracket is left at their end. -/
def items : List (List Char) := parseItems (Text.dropEndWhile (· == '>') w.inner)

/-- The type as it is looked up, between the outermost brackets. -/
def lookedUp : List Char := Text.join [','] (w.arguments.map Text.trim)

theorem configuredKey_chars : configuredKey w.chars = typeKey (Text.trim w.name) w.items := by
  have htrim : Text.trim w.chars = Text.trimStart w.name ++ '<' :: (w.inner ++ ['>']) := by
    have hbody : w.chars = [] ++ (w.name ++ '<' :: (w.inner ++ ['>'])) ++ w.after := by
      simp [chars]
    rw [hbody, Text.trim_append_append rfl w.after_blank, Text.trim,
      Text.trimStart_append_cons (by decide), ← List.cons_append, ← List.append_assoc, Text.trimEnd,
      Text.dropEndWhile_concat (by decide)]
  have hname : ∀ c ∈ Text.trimStart w.name, (c == '<') = false := fun c hc =>
    beq_eq_false_iff_ne.mpr fun he => w.name_bracket (he ▸ (List.dropWhile_sublist _).subset hc)
  rw [configuredKey, htrim, Text.splitOnce_append_cons hname rfl]
  dsimp only
  rw [Text.trim_trimStart, Text.trimEnd, Text.dropEndWhile_concat (by decide),
    Text.dropEndWhile_append (by simp), items]

/-- All other characters of the arguments are in the items. -/
theorem count_join_items {c : Char} (hblank : isBlank c = false) (hcomma : c ≠ ',')
    (hbracket : c ≠ '>') : (Text.join [','] w.items).count c = w.inner.count c := by
  rw [items, count_join_parseItems hblank hcomma,
    Text.count_dropEndWhile (p := (· == '>')) (beq_eq_false_iff_ne.mpr hbracket)]

theorem items_ne_nil : w.items ≠ [] := by
  obtain ⟨a, ha⟩ := List.exists_mem_of_ne_nil _ w.arguments_ne_nil
  obtain ⟨c, hc, hname⟩ := List.any_eq_true.mp (w.arguments_named a ha)
  simp only [isNameChar, Bool.not_eq_true', Bool.or_eq_false_iff, beq_eq_false_iff_ne] at hname
  obtain ⟨⟨⟨hblank, hcomma⟩, -⟩, hbracket⟩ := hname
  have hpos : 0 < w.inner.count c := by
    rw [inner, Text.count_join hcomma]
    exact List.count_pos_iff.mpr (List.mem_flatten.mpr ⟨a, ha, hc⟩)
  intro hnil
  rw [← w.count_join_items hblank hcomma hbracket, hnil] at hpos
  exact absurd hpos (Nat.lt_irrefl 0)

theorem key_eq : w.key = String.ofList (Text.trim w.name ++ '<' :: w.lookedUp ++ ['>']) := by
  have harguments : w.typeArguments.map String.toList = w.arguments.map Text.trim := by
    simp [typeArguments]
  have hne : (w.arguments.map Text.trim).isEmpty = false := by
    simpa using w.arguments_ne_nil
  rw [key, typeName, harguments, String.toList_ofList, typeKey, hne, if_neg Bool.false_ne_true,
    lookedUp]

/-- The rule has the key of the type when its items are the arguments. -/
theorem configuredKey_eq_iff :
    String.ofList (configuredKey w.chars) = w.key ↔ Text.join [','] w.items = w.lookedUp := by
  have hne : w.items.isEmpty = false := by simpa using w.items_ne_nil
  rw [configuredKey_chars, typeKey, hne, if_neg Bool.false_ne_true, key_eq, String.ofList_inj]
  simp

theorem count_lookedUp : w.lookedUp.count '>' = w.inner.count '>' := by
  rw [lookedUp, inner, Text.count_join (by decide), Text.count_join (by decide),
    Text.count_flatten_map_trim (by decide)]

theorem parseItems_inner : parseItems w.inner = parseItems w.lookedUp := by
  simp [inner, lookedUp, parseItems_join, List.flatMap_map, parseItems_trim]

/-- Nothing of the arguments is lost: no bracket at their end, and no blank at their commas. -/
theorem join_items_eq_iff : Text.join [','] w.items = w.lookedUp ↔
    (∀ a ∈ w.arguments, Itemized (Text.trim a)) ∧ w.inner.getLast? ≠ some '>' := by
  have hwhole : (∀ a ∈ w.arguments, Itemized (Text.trim a)) ↔ Itemized w.lookedUp := by
    rw [lookedUp, itemized_join_iff (by simpa using w.arguments_ne_nil), List.forall_mem_map]
  have hitems (hdrop : Text.dropEndWhile (· == '>') w.inner = w.inner) :
      w.items = parseItems w.lookedUp := by
    rw [items, hdrop, parseItems_inner]
  rw [hwhole, ← Text.dropEndWhile_eq_self_iff]
  constructor
  · intro h
    have hdrop : Text.dropEndWhile (· == '>') w.inner = w.inner := by
      refine Text.dropEndWhile_eq_self_of_count ?_
      rw [← count_join_parseItems (by decide) (by decide), ← items, h, count_lookedUp]
    have hne := w.items_ne_nil
    rw [hitems hdrop] at h hne
    exact ⟨(join_parseItems_eq_iff hne).mp h, hdrop⟩
  · rintro ⟨hitemized, hdrop⟩
    have hne := w.items_ne_nil
    rw [hitems hdrop] at hne ⊢
    exact (join_parseItems_eq_iff hne).mpr hitemized

/-! ### Rules that are found -/

theorem keyOf?_entry (target : String) :
    keyOf? Key.schemaStart (w.entry target) = some (String.ofList (configuredKey w.chars)) := by
  have hstrip : Text.strip? Key.schemaStart.toList (w.entry target).1.toList = some w.chars := by
    rw [Text.strip?_eq_some_iff, entry, String.toList_append, String.toList_ofList]
  rw [keyOf?, hstrip]
  rfl

theorem key_ne_empty : w.key ≠ "" := by
  rw [key_eq]
  intro h
  simpa using congrArg String.toList h

theorem typeName_ne_empty : w.typeName ≠ "" := by
  obtain ⟨c, hc, hname⟩ := List.any_eq_true.mp w.name_named
  have hblank : isBlank c = false := by
    simp only [isNameChar, Bool.not_eq_true', Bool.or_eq_false_iff] at hname
    exact hname.1.1.1
  have hpos : 0 < (Text.trim w.name).count c := by
    rw [Text.count_trim hblank]
    exact List.count_pos_iff.mpr hc
  intro h
  have hnil : Text.trim w.name = [] := by simpa [typeName] using h
  rw [hnil] at hpos
  exact absurd hpos (Nat.lt_irrefl 0)

/-- No type with arguments has the key of its bare name. -/
theorem configuredKey_ne_typeName : String.ofList (configuredKey w.chars) ≠ w.typeName := by
  have hne : w.items.isEmpty = false := by simpa using w.items_ne_nil
  rw [configuredKey_chars, typeKey, hne, if_neg Bool.false_ne_true, typeName, Ne,
    String.ofList_inj]
  intro h
  have := congrArg List.length h
  simp at this

theorem target?_eq (t : Table) :
    t.target? w.typeName w.typeArguments = (t.targets.get? w.key).or (t.targets.get? w.typeName) :=
  rfl

/-- A rule is found when the type that it is read for is the one that it is written for. -/
theorem found_iff_configuredKey_eq :
    w.Found ↔ String.ofList (configuredKey w.chars) = w.key := by
  constructor
  · intro h
    by_contra hne
    let c : Context := { layers := [.system [w.entry "T"]] }
    have hone : entriesUnder c.layers Key.schemaStart = [w.entry "T"] := by
      simp [c, entriesUnder, Layer.entriesUnder, Layer.keysUnder, keysUnder, Keyed.keys, beginsWith,
        Layer.get?, Keyed.get?, entry]
    -- The only rule is found neither under the key of the type nor under its bare name.
    have hget (key : String) (hkey : key ≠ "")
        (hother : String.ofList (configuredKey w.chars) ≠ key) :
        c.typeRules.targets.get? key = none := by
      rw [Context.typeRules, readAll, get?_foldl_readEntry hkey, hone]
      simp [targetFor?, keyOf?_entry, hother]
    have hfound := h c [] [] "T" hone (List.forall_mem_nil _) rfl
    rw [target?_eq, hget _ w.key_ne_empty hne,
      hget _ w.typeName_ne_empty w.configuredKey_ne_typeName] at hfound
    cases hfound
  · intro hkey c before after target hentries hbefore hholds
    have hnone : before.findSome? (targetFor? Key.schemaStart c.catalog w.key) = none := by
      refine List.findSome?_eq_none_iff.mpr fun e he => ?_
      rw [targetFor?, beq_false_of_ne (hbefore e he), Bool.false_and, if_neg Bool.false_ne_true]
    have htarget : targetFor? Key.schemaStart c.catalog w.key (w.entry target) =
        some (trimText target) := by
      rw [targetFor?, keyOf?_entry, hkey, beq_self_eq_true, Bool.true_and]
      exact if_pos hholds
    rw [target?_eq, Context.typeRules, readAll, get?_foldl_readEntry w.key_ne_empty, hentries,
      List.findSome?_append, hnone, List.findSome?_cons, htarget]
    rfl

/-- **A rule for a type with arguments is found** exactly when every piece of an argument between
commas is there and without blanks at its ends, and no closing bracket of an argument comes right
before that of the type. -/
theorem found_iff : w.Found ↔
    (∀ a ∈ w.arguments, Itemized (Text.trim a)) ∧ w.inner.getLast? ≠ some '>' := by
  rw [found_iff_configuredKey_eq, configuredKey_eq_iff, join_items_eq_iff]

/-- A page of a list, with a blank between the two closing brackets. -/
def spacedPage : WrittenType where
  name := "Page ".toList
  arguments := [" List<Pet> ".toList, " Map<K,V> ".toList]

theorem found_spacedPage :
    String.ofList spacedPage.chars = "Page < List<Pet> , Map<K,V> >" ∧
      spacedPage.typeName = "Page" ∧ spacedPage.typeArguments = ["List<Pet>", "Map<K,V>"] ∧
      spacedPage.Found := by
  refine ⟨by decide, by decide, by decide, (found_iff spacedPage).mpr ⟨by decide, by decide⟩⟩

/-- A page of a list without it. -/
def pageOfPets : WrittenType where
  name := "Page".toList
  arguments := ["List<Pet>".toList]

/-- Settings with no rule but one for it. -/
def pageSettings : Context where
  layers := [.system [pageOfPets.entry "PetPage"]]

/-- The only rule that there is for the type is not found. -/
theorem not_found_pageOfPets :
    String.ofList pageOfPets.chars = "Page<List<Pet>>" ∧
      pageOfPets.typeName = "Page" ∧ pageOfPets.typeArguments = ["List<Pet>"] ∧
      pageSettings.typeRules.target? "Page" ["List<Pet>"] = none ∧
      ¬ pageOfPets.Found := by
  have hnone : pageSettings.typeRules.target? "Page" ["List<Pet>"] = none := by
    decide +kernel
  refine ⟨by decide, by decide, by decide, hnone, fun h => ?_⟩
  have hfound := h pageSettings [] [] "PetPage" (by decide +kernel) (List.forall_mem_nil _) rfl
  cases hnone.symm.trans hfound

end WrittenType

end TypeRule

end ApiAssembly
