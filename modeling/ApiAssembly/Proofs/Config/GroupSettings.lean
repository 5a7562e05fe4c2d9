import ApiAssembly.CommandLine.LatinSlugs
import ApiAssembly.Config.Context
import ApiAssembly.Proofs.Text.Splitting

/-!
# Proofs — Config — which entry gives a group its setting

A key is for a setting of a group if behind the start of all such keys it has the name of the group,
a point, and a spelling of the setting (`Group.Setting.isFor_iff`).  The name may have points of its
own: the last point of a key is the one before the property (`Group.splitKey?_eq_some_iff`).

Of the values under such keys a group has the first one that sets the setting, and no other entry
counts (`Group.valueIn_foldl_readEntry`).  Each value sets a text or a flag, a blank one too.  A
list is set by a value with items: one without them, although it is the first, gives way to a later
one, and that is all that keeps the first value from winning (`Context.firstWins_iff`).
-/

namespace ApiAssembly

namespace Group

/-! ### The values of settings -/

/-- What a group has for a setting. -/
inductive SettingValue where
  | text (t : Option String)
  | rules (rs : List PackageRule)
  | flag (b : Option Bool)
  deriving DecidableEq

/-- Whether the setting has a value: a list without rules is none. -/
def SettingValue.isSet : SettingValue → Bool
  | .text t   => t.isSome
  | .rules rs => !rs.isEmpty
  | .flag b   => b.isSome

namespace Setting

/-- The name of a setting, in small letters and without separators. -/
def name : Setting → String
  | .displayName     => "displayname"
  | .filename        => "filename"
  | .packages        => "packages"
  | .packagesExclude => "packagesexclude"
  | .primary         => "primary"
  | .commonExclude   => "commonexclude"

/-- What a group has for the setting. -/
def valueIn (s : Setting) (g : Group) : SettingValue :=
  match s with
  | .displayName     => .text g.displayName
  | .filename        => .text g.filename
  | .packages        => .rules g.packages
  | .packagesExclude => .rules g.packagesExclude
  | .primary         => .flag g.primary
  | .commonExclude   => .flag g.commonExclude

/-- What a value, or none, comes to for the setting. -/
def parsed (s : Setting) (value : Option String) : SettingValue :=
  match s with
  | .displayName | .filename     => .text value
  | .packages | .packagesExclude => .rules ((value.map parseRules).getD [])
  | .primary | .commonExclude    => .flag (value.map fun v => parseFlag v false)

/-- Whether a value sets the setting: one without items sets no list. -/
def sets (s : Setting) (value : String) : Bool := (s.parsed (some value)).isSet

variable {s s' : Setting} {g : Group} {value : String}

theorem isSet_parsed_none (s : Setting) : (s.parsed none).isSet = false := by cases s <;> rfl

theorem valueIn_of_not_isSet (h : (s.valueIn g).isSet = false) : s.valueIn g = s.parsed none := by
  cases s <;> simp_all [valueIn, SettingValue.isSet, parsed]

theorem parsed_of_not_sets (h : s.sets value = false) : s.parsed (some value) = s.parsed none := by
  cases s <;> simp_all [sets, SettingValue.isSet, parsed]

/-- A value that is there stays. -/
theorem valueIn_set_self (g : Group) (s : Setting) (value : String) :
    s.valueIn (g.set s value) =
      if !(s.valueIn g).isSet then s.parsed (some value) else s.valueIn g := by
  obtain ⟨-, display, filename, packages, packagesExclude, primary, commonExclude⟩ := g
  cases s with
  | displayName => cases display <;> rfl
  | filename => cases filename <;> rfl
  | packages => cases packages <;> rfl
  | packagesExclude => cases packagesExclude <;> rfl
  | primary => cases primary <;> rfl
  | commonExclude => cases commonExclude <;> rfl

/-- Where no value sets the setting, what is found comes to none. -/
theorem parsed_find?_eq_parsed_none_iff {values : List String} :
    s.parsed (values.find? s.sets) = s.parsed none ↔ ∀ value ∈ values, s.sets value = false := by
  cases hfind : values.find? s.sets with
  | none => simpa using hfind
  | some value =>
    have hsets : s.sets value = true := List.find?_some hfind
    constructor
    · intro h
      have hset : (s.parsed (some value)).isSet = true := hsets
      rw [h, isSet_parsed_none] at hset
      cases hset
    · intro h
      rw [h value (List.mem_of_find?_eq_some hfind)] at hsets
      cases hsets

theorem valueIn_set_of_ne (h : s' ≠ s) : s.valueIn (g.set s' value) = s.valueIn g := by
  cases s' <;> cases s <;> first | rfl | exact absurd rfl h

end Setting

/-! ### The keys of settings -/

/-- A property is the name of the setting but for case, dashes and underscores. -/
def Setting.isSpelled (s : Setting) (property : String) : Bool :=
  !property.toList.contains '.' &&
    (property.toList.filter fun c => !(c == '-' || c == '_')).map Char.toLower == s.name.toList

/-- A key is for the setting of a group: behind the start and the name of the group comes a point,
and then a spelling of the setting. -/
def Setting.isFor (s : Setting) (start group key : String) : Bool :=
  (stripStart? (start ++ group ++ ".") key).any s.isSpelled

/-- The values under the keys for the setting of a group, in order. -/
def Setting.values (s : Setting) (start group : String) (entries : List (String × String)) :
    List String :=
  (entries.filter fun e => s.isFor start group e.1).map Prod.snd

variable {start group property key : String} {s : Setting}

theorem Setting.isFor_iff : s.isFor start group key ↔
    ∃ property, s.isSpelled property ∧ key = start ++ group ++ "." ++ property := by
  rw [isFor, Option.any_eq_true]
  refine exists_congr fun property => ?_
  rw [stripStart?, Option.map_eq_some_iff, and_comm]
  refine and_congr_right fun _ => ?_
  constructor
  · rintro ⟨cs, hcs, rfl⟩
    rw [← String.toList_inj, String.toList_append, String.toList_ofList]
    exact Text.strip?_eq_some_iff.mp hcs
  · rintro rfl
    exact ⟨property.toList, Text.strip?_eq_some_iff.mpr (String.toList_append ..),
      String.ofList_toList⟩

example : Setting.displayName.isFor Key.groupsStart "v1.admin"
    "apiloom.groups.v1.admin.Display_name" := by decide

theorem splitLast_isPoint_iff {cs before after : List Char} :
    Text.splitLast PackageRule.isPoint cs = some (before, after) ↔
      cs = before ++ '.' :: after ∧ '.' ∉ after := by
  have hpoint : (∀ c ∈ after, PackageRule.isPoint c = false) ↔ '.' ∉ after := by
    simp only [PackageRule.isPoint, beq_eq_false_iff_ne]
    exact ⟨fun h hm => h _ hm rfl, fun h c hc he => h (he ▸ hc)⟩
  rw [← hpoint]
  constructor
  · intro h
    obtain ⟨c, hc, hcs, hafter⟩ := Text.exists_of_splitLast_eq_some h
    obtain rfl : c = '.' := eq_of_beq hc
    exact ⟨hcs, hafter⟩
  · rintro ⟨rfl, hafter⟩
    exact Text.splitLast_append_cons rfl hafter

/-- A key is cut at its last point. -/
theorem splitKey?_eq_some_iff : splitKey? start key = some (group, property) ↔
    group ≠ "" ∧ '.' ∉ property.toList ∧ key = start ++ group ++ "." ++ property := by
  constructor
  · intro h
    rw [splitKey?] at h
    split at h
    case h_1 => cases h
    case h_2 rest hrest =>
      split at h
      case h_2 => cases h
      case h_1 before after hsplit =>
        split at h
        case isTrue => cases h
        case isFalse hne =>
          obtain ⟨rfl, rfl⟩ := Prod.mk.inj (Option.some.inj h)
          obtain ⟨rfl, hafter⟩ := splitLast_isPoint_iff.mp hsplit
          refine ⟨fun he => hne ?_, by rwa [String.toList_ofList], ?_⟩
          · simpa using congrArg String.toList he
          · rw [← String.toList_inj, Text.strip?_eq_some_iff.mp hrest]
            simp
  · rintro ⟨hne, hproperty, rfl⟩
    have hstrip : Text.strip? start.toList (start ++ group ++ "." ++ property).toList =
        some (group.toList ++ '.' :: property.toList) := by
      rw [Text.strip?_eq_some_iff]
      simp
    have hgroup : group.toList.isEmpty = false := by
      simpa using hne
    rw [splitKey?, hstrip]
    dsimp only
    rw [splitLast_isPoint_iff.mpr ⟨rfl, hproperty⟩]
    dsimp only
    rw [hgroup, if_neg Bool.false_ne_true, String.ofList_toList, String.ofList_toList]

theorem Setting.of?_eq_some_iff : of? property = some s ↔ canonical property = s.name := by
  constructor
  · intro h
    unfold of? at h
    dsimp only at h
    split_ifs at h with hp hp hp hp hp hp <;> obtain rfl := Option.some.inj h <;> exact hp
  · intro h
    rw [of?, h]
    cases s <;> rfl

theorem Setting.isSpelled_iff : s.isSpelled property ↔
    '.' ∉ property.toList ∧ of? property = some s := by
  have hfilter : '.' ∉ property.toList →
      (property.toList.filter fun c => !(c == '-' || c == '_' || c == '.')) =
        property.toList.filter fun c => !(c == '-' || c == '_') := by
    intro hdot
    refine List.filter_congr fun c hc => ?_
    have hne : (c == '.') = false := beq_eq_false_iff_ne.mpr fun he => hdot (he ▸ hc)
    rw [hne, Bool.or_false]
  rw [isSpelled, Bool.and_eq_true, Bool.not_eq_true', List.contains_eq_mem,
    decide_eq_false_iff_not, beq_iff_eq]
  refine and_congr_right fun hdot => ?_
  rw [of?_eq_some_iff, canonical, hfilter hdot, ← String.toList_inj, String.toList_ofList]

/-- A key is for a setting of a group with a name exactly when it is read so. -/
theorem Setting.isFor_eq (hgroup : group ≠ "") : s.isFor start group key =
    (splitKey? start key).any fun r => r.1 == group && of? r.2 == some s := by
  rw [Bool.eq_iff_iff, isFor_iff, Option.any_eq_true]
  simp only [isSpelled_iff, Bool.and_eq_true, beq_iff_eq, Prod.exists, splitKey?_eq_some_iff]
  constructor
  · rintro ⟨property, ⟨hdot, hof⟩, rfl⟩
    exact ⟨group, property, ⟨hgroup, hdot, rfl⟩, rfl, hof⟩
  · rintro ⟨_, property, ⟨-, hdot, rfl⟩, rfl, hof⟩
    exact ⟨property, ⟨hdot, hof⟩, rfl⟩

/-! ### Reading entries -/

/-- The settings of a group: none, where it is not among the groups. -/
def configured (groups : Keyed Group) (name : String) : Group :=
  (groups.get? name).getD { name }

variable {groups : Keyed Group} {entry : String × String}

/-- One entry sets the setting that its key is for, unless it has a value. -/
theorem valueIn_readEntry (hgroup : group ≠ "") :
    s.valueIn (configured (readEntry start groups entry) group) =
      if !(s.valueIn (configured groups group)).isSet && s.isFor start group entry.1 then
        s.parsed (some entry.2)
      else s.valueIn (configured groups group) := by
  rw [Setting.isFor_eq hgroup, readEntry]
  cases splitKey? start entry.1 with
  | none => simp
  | some r =>
    obtain ⟨group', property⟩ := r
    by_cases hg : group' = group
    · subst hg
      cases hof : Setting.of? property with
      | none => simp [configured, Keyed.get?_insert_self, hof]
      | some s' =>
        by_cases hs : s' = s
        · subst hs
          simp [configured, Keyed.get?_insert_self, hof, Setting.valueIn_set_self]
        · simp [configured, Keyed.get?_insert_self, hof, Setting.valueIn_set_of_ne hs, hs]
    · simp [configured, Keyed.get?_insert_of_ne _ _ hg, hg]

/-- **The first value that sets it** is the value of a setting, where it had none before. -/
theorem valueIn_foldl_readEntry (hgroup : group ≠ "") (entries : List (String × String)) :
    s.valueIn (configured (entries.foldl (readEntry start) groups) group) =
      if (s.valueIn (configured groups group)).isSet then s.valueIn (configured groups group)
      else s.parsed ((s.values start group entries).find? s.sets) := by
  induction entries generalizing groups with
  | nil =>
    cases hset : (s.valueIn (configured groups group)).isSet with
    | true => rfl
    | false => exact Setting.valueIn_of_not_isSet hset
  | cons entry entries ih =>
    rw [List.foldl_cons, ih, valueIn_readEntry hgroup]
    cases hset : (s.valueIn (configured groups group)).isSet with
    | true => simp [hset]
    | false =>
      cases hfor : s.isFor start group entry.1 with
      | false => simp [hset, Setting.values, hfor]
      | true =>
        cases hsets : s.sets entry.2 with
        | true =>
          have hvalue : (s.parsed (some entry.2)).isSet := hsets
          simp [Setting.values, hfor, hsets, hvalue]
        | false =>
          have hvalue : (s.parsed (some entry.2)).isSet = false := hsets
          simp [Setting.values, hfor, hsets, hvalue]

/-- The groups are those that a key names. -/
theorem has_readEntry : (readEntry start groups entry).has group =
    (groups.has group || (splitKey? start entry.1).any fun r => r.1 == group) := by
  rw [readEntry]
  cases splitKey? start entry.1 with
  | none => simp
  | some r =>
    obtain ⟨group', property⟩ := r
    by_cases hg : group' = group
    · simp [Keyed.has, hg, Keyed.get?_insert_self]
    · simp [Keyed.has, hg, Keyed.get?_insert_of_ne _ _ hg]

/-- A group with a value for a setting is among the groups. -/
theorem has_foldl_readEntry (hgroup : group ≠ "") {entries : List (String × String)}
    (h : groups.has group ∨ s.values start group entries ≠ []) :
    (entries.foldl (readEntry start) groups).has group := by
  induction entries generalizing groups with
  | nil => exact h.resolve_right (absurd rfl)
  | cons entry entries ih =>
    refine ih ?_
    rw [has_readEntry, Bool.or_eq_true]
    cases hfor : s.isFor start group entry.1 with
    | true =>
      rw [Setting.isFor_eq hgroup, Option.any_eq_true] at hfor
      obtain ⟨r, hr, hnames⟩ := hfor
      refine .inl (.inr ?_)
      rw [hr]
      exact (Bool.and_eq_true_iff.mp hnames).1
    | false =>
      have hvalues : s.values start group (entry :: entries) = s.values start group entries := by
        simp [Setting.values, hfor]
      exact (hvalues ▸ h).imp_left .inl

end Group

namespace Context

/-- The settings of a group. -/
def group (c : Context) (name : String) : Group := Group.configured c.groups name

/-- The values of a setting of a group in the layers, in order of precedence. -/
def groupValues (c : Context) (name : String) (s : Group.Setting) : List String :=
  s.values Key.groupsStart name (entriesUnder c.layers Key.groupsStart)

/-- The first value wins: a group with a value is there, and what it has for the setting is what
that value comes to. -/
def FirstWins (c : Context) (name : String) (s : Group.Setting) : Prop :=
  (c.groupValues name s ≠ [] → c.groups.has name) ∧
    s.valueIn (c.group name) = s.parsed (c.groupValues name s).head?

/-- **The value of a setting of a group** is what the first value under its keys comes to that sets
it, layer by layer and in order in each.  So the first value wins exactly when it sets the setting,
or no other one does: whatever it is for a text or a flag, and for a list if it has items, or
nothing behind it has. -/
theorem firstWins_iff (c : Context) {name : String} (hname : name ≠ "") (s : Group.Setting) :
    s.valueIn (c.group name) = s.parsed ((c.groupValues name s).find? s.sets) ∧
    (c.FirstWins name s ↔ ∀ first rest, c.groupValues name s = first :: rest →
      s.sets first ∨ ∀ value ∈ rest, s.sets value = false) := by
  have hvalue : s.valueIn (c.group name) = s.parsed ((c.groupValues name s).find? s.sets) := by
    have hnone : (s.valueIn (Group.configured [] name)).isSet = false := by cases s <;> rfl
    rw [group, groups, Group.readAll, Group.valueIn_foldl_readEntry hname, hnone,
      if_neg Bool.false_ne_true, groupValues]
  have hhas (h : c.groupValues name s ≠ []) : c.groups.has name :=
    Group.has_foldl_readEntry hname (.inr h)
  refine ⟨hvalue, ?_⟩
  rw [FirstWins, and_iff_right hhas, hvalue]
  cases c.groupValues name s with
  | nil => simp
  | cons first rest =>
    have hcons : (∀ first' rest', first :: rest = first' :: rest' →
        s.sets first' ∨ ∀ value ∈ rest', s.sets value = false) ↔
          (s.sets first ∨ ∀ value ∈ rest, s.sets value = false) := by
      simp
    rw [hcons, List.find?_cons, List.head?_cons]
    cases hfirst : s.sets first with
    | true => simp
    | false =>
      rw [Group.Setting.parsed_of_not_sets hfirst]
      simpa using Group.Setting.parsed_find?_eq_parsed_none_iff

/-- A caller's settings for two groups, and those of a properties file. -/
def layeredGroups : Context where
  layers := [
    .system [("apiloom.groups.v1.admin.display-name", "  "), ("apiloom.groups.a.packages", "")],
    .file [("apiloom.groups.v1.admin.displayName", "Admin"),
      ("apiloom.groups.a.packages", "com.example")]]

/-- The blank display name wins over the one in the file. -/
theorem firstWins_layeredGroups :
    "v1.admin" ≠ "" ∧
      layeredGroups.groupValues "v1.admin" .displayName = ["  ", "Admin"] ∧
      layeredGroups.FirstWins "v1.admin" .displayName := by
  have hname : "v1.admin" ≠ "" := by decide
  have hvalues : layeredGroups.groupValues "v1.admin" .displayName = ["  ", "Admin"] := by
    decide +kernel
  refine ⟨hname, hvalues, (firstWins_iff layeredGroups hname .displayName).2.mpr ?_⟩
  intro first rest _
  exact .inl rfl

/-- The blank list of packages does not. -/
theorem not_firstWins_layeredGroups :
    layeredGroups.groupValues "a" .packages = ["", "com.example"] ∧
      (layeredGroups.group "a").packages = [⟨"com.example", false⟩] ∧
      ¬ layeredGroups.FirstWins "a" .packages := by
  have hvalues : layeredGroups.groupValues "a" .packages = ["", "com.example"] := by
    decide +kernel
  have hpackages : (layeredGroups.group "a").packages = [⟨"com.example", false⟩] := by
    decide +kernel
  refine ⟨hvalues, hpackages, fun h => ?_⟩
  have hwins : Group.SettingValue.rules [⟨"com.example", false⟩] = .rules (Group.parseRules "") := by
    rw [← hpackages]
    exact h.2.trans (congrArg (Group.Setting.packages.parsed ·.head?) hvalues)
  exact absurd hwins (by decide +kernel)

end Context

end ApiAssembly
