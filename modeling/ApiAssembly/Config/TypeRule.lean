import ApiAssembly.Config.Settings
import ApiAssembly.Warning

/-!
# Config — TypeRule — types that stand for others, and names of schemas

A type rule documents a type, with or without type arguments, as another type, its target; a rule
whose target is not in the catalog of types is reported and dropped. A decoration puts a text before
or behind the names of the schemas of a package. Of several rules for a type, and of several
decorations of one kind for a package, the first one counts.
-/

namespace ApiAssembly

/-- The types that exist: all names, or those of a list. -/
inductive TypeCatalog where
  | anyType
  | these (names : List String)

def TypeCatalog.holds : TypeCatalog → String → Bool
  | .anyType,     _    => true
  | .these names, name => names.contains name

namespace TypeRule

/-- The key of a type: its name, with its arguments between angle brackets if it has some. -/
def typeKey (name : List Char) (arguments : List (List Char)) : List Char :=
  if arguments.isEmpty then name else name ++ '<' :: Text.join [','] arguments ++ ['>']

/-- The key of a type as a rule writes it, with blanks around names and arguments. -/
def configuredKey (configured : List Char) : List Char :=
  let configured := Text.trim configured
  match Text.splitOnce (· == '<') configured with
  | none              => configured
  | some (name, rest) =>
    typeKey (Text.trim name)
      (parseItems (Text.dropEndWhile (· == '>') (Text.trimEnd rest)))

/-- The targets by type key, and the rules that were dropped. -/
structure Table where
  targets : Keyed String := []
  warnings : List Warning := []

/-- Reads one rule. -/
def readEntry (start : String) (catalog : TypeCatalog) (t : Table) (entry : String × String) :
    Table :=
  match Text.strip? start.toList entry.1.toList with
  | none            => t
  | some configured =>
    let key := String.ofList (configuredKey configured)
    let target := trimText entry.2
    if key.isEmpty || t.targets.has key then t
    else if catalog.holds target then { t with targets := t.targets.insert key target }
    else { t with warnings := t.warnings ++ [.unknownSchemaTarget key target] }

/-- The rules of some entries in order of precedence. -/
def readAll (start : String) (catalog : TypeCatalog) (entries : List (String × String)) : Table :=
  entries.foldl (readEntry start catalog) {}

/-- The target for a type: of the rule with its arguments, else of the rule for its bare name. -/
def Table.target? (t : Table) (name : String) (arguments : List String) : Option String :=
  (t.targets.get? (String.ofList (typeKey name.toList (arguments.map String.toList)))).or
    (t.targets.get? name)

end TypeRule

/-- What is put before and behind the schema names of a package. -/
structure Decoration where
  before : Option String := none
  after : Option String := none
  deriving DecidableEq

namespace Decoration

def apply (d : Decoration) (name : String) : String := d.before.getD "" ++ name ++ d.after.getD ""

/-- Which of the two texts an entry sets. -/
inductive Side where
  | before | after
  deriving DecidableEq

def set (d : Decoration) (side : Side) (value : String) : Decoration :=
  match side with
  | .before => { d with before := d.before.or (some value) }
  | .after  => { d with after := d.after.or (some value) }

/-- Reads a value for a package, which has to have a name. -/
def readEntry (ds : Keyed Decoration) (side : Side) (package value : String) : Keyed Decoration :=
  if package.isEmpty then ds
  else ds.insert package (((ds.get? package).getD {}).set side value)

/-- The decorations of some entries in order of precedence; a package is the rest of its key. -/
def readAll (beforeStart afterStart : String) (before after : List (String × String)) :
    Keyed Decoration :=
  let ds := before.foldl
    (fun ds entry => readEntry ds .before (stripStarts beforeStart entry.1) entry.2) []
  after.foldl (fun ds entry => readEntry ds .after (stripStarts afterStart entry.1) entry.2) ds

end Decoration

end ApiAssembly
