import ApiAssembly.Config.Settings

/-!
# Config — Group — groups of endpoints and the packages in them

A package rule selects one package, or with a star at its end a package and all below it. A group
has rules for the packages that belong to it and for those that must stay out, names for its
documents, and flags. The settings of groups are read from keys `<start><group>.<property>`; the
spelling of a property may use capitals, dashes and underscores as it likes, and of several values
the first one counts.
-/

namespace ApiAssembly

/-- A selector of packages. -/
structure PackageRule where
  package : String
  below : Bool
  deriving DecidableEq

namespace PackageRule

def isPoint (c : Char) : Bool := c == '.'

/-- Reads a rule. -/
def parse (rule : String) : PackageRule :=
  let cs := Text.trim rule.toList
  if cs.getLast? == some '*' then
    ⟨String.ofList (Text.dropEndWhile isPoint cs.dropLast), true⟩
  else ⟨String.ofList cs, false⟩

/-- Whether the rule selects a package. -/
def selects (r : PackageRule) (package : String) : Bool :=
  package == r.package ||
    (r.below && (match Text.strip? r.package.toList package.toList with
      | some (c :: _) => isPoint c
      | _             => false))

/-- The text of a rule. -/
def text (r : PackageRule) : String := if r.below then r.package ++ ".*" else r.package

end PackageRule

/-- The settings of a group. -/
structure Group where
  name : String := ""
  displayName : Option String := none
  filename : Option String := none
  packages : List PackageRule := []
  packagesExclude : List PackageRule := []
  primary : Option Bool := none
  commonExclude : Option Bool := none
  deriving DecidableEq

namespace Group

def isPrimary (g : Group) : Bool := g.primary.getD false

/-- Whether common endpoints stay out of the group. -/
def excludesCommon (g : Group) : Bool := g.commonExclude.getD false

/-- Whether the endpoints of a package belong to the group. -/
def includesPackage (g : Group) (package : String) : Bool :=
  g.packages.any fun r => r.selects package

/-- Whether the endpoints of a package must stay out of the group. -/
def excludesPackage (g : Group) (package : String) : Bool :=
  g.packagesExclude.any fun r => r.selects package

/-- The settings that a group can have. -/
inductive Setting where
  | displayName | filename | packages | packagesExclude | primary | commonExclude
  deriving DecidableEq

/-- A property without case and separators. -/
def canonical (property : String) : String :=
  String.ofList ((property.toList.filter fun c => !(c == '-' || c == '_' || c == '.')).map
    Char.toLower)

/-- The setting that a property spells. -/
def Setting.of? (property : String) : Option Setting :=
  let p := canonical property
  if p = "displayname" then some .displayName
  else if p = "filename" then some .filename
  else if p = "packages" then some .packages
  else if p = "packagesexclude" then some .packagesExclude
  else if p = "primary" then some .primary
  else if p = "commonexclude" then some .commonExclude
  else none

/-- Reads a list of rules. -/
def parseRules (value : String) : List PackageRule := (parseList value).map PackageRule.parse

/-- Gives a setting its value unless it has one; a list without items counts as none. -/
def set (g : Group) (s : Setting) (value : String) : Group :=
  match s with
  | .displayName     => { g with displayName := g.displayName.or (some value) }
  | .filename        => { g with filename := g.filename.or (some value) }
  | .packages        =>
    { g with packages := if g.packages.isEmpty then parseRules value else g.packages }
  | .packagesExclude =>
    { g with packagesExclude :=
        if g.packagesExclude.isEmpty then parseRules value else g.packagesExclude }
  | .primary         => { g with primary := g.primary.or (some (parseFlag value false)) }
  | .commonExclude   =>
    { g with commonExclude := g.commonExclude.or (some (parseFlag value false)) }

/-- The group and the property that a key names. -/
def splitKey? (start key : String) : Option (String × String) :=
  match Text.strip? start.toList key.toList with
  | none      => none
  | some rest =>
    match Text.splitLast PackageRule.isPoint rest with
    | some (group, property) =>
      if group.isEmpty then none else some (String.ofList group, String.ofList property)
    | none                   => none

/-- Reads one entry into the groups; a property that is no setting still names its group. -/
def readEntry (start : String) (groups : Keyed Group) (entry : String × String) : Keyed Group :=
  match splitKey? start entry.1 with
  | none                   => groups
  | some (group, property) =>
    let g := (groups.get? group).getD { name := group }
    groups.insert group (match Setting.of? property with
      | some s => g.set s entry.2
      | none   => g)

/-- The groups of some entries in order of precedence. -/
def readAll (start : String) (entries : List (String × String)) : Keyed Group :=
  entries.foldl (readEntry start) []

end Group

end ApiAssembly
