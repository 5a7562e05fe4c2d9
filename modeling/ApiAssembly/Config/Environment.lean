import ApiAssembly.Config.Flatten
import ApiAssembly.Config.Settings
import ApiAssembly.Files.Tree
import ApiAssembly.Placeholder.Token
import ApiAssembly.Document.Source

/-!
# Config — Environment — application files and environment variables

The files `application.*` and then `application-<environment>.*` of each active environment are
flattened one over the other. A variable whose name is the key in capitals, with underscores for
points and dashes, stands before the files. A value may refer to other keys by tokens, with a
default after a colon; references in values are followed eight times at most.
-/

namespace ApiAssembly

/-- The keys of the application files, and the environment variables. -/
structure Environment where
  properties : Keyed String := []
  exported : Keyed String := []

namespace Environment

/-- The variable that stands for a key. -/
def variableName (key : String) : String :=
  String.ofList (key.toList.map fun c => if c = '.' ∨ c = '-' then '_' else c.toUpper)

/-- The value under a key as it is written. -/
def raw? (e : Environment) (key : String) : Option String :=
  match e.exported.get? (variableName key) with
  | some v => some v
  | none   => e.properties.get? key

/-- The value of a token as it is written: a key, or a key and a default after a colon. -/
def lookup? (e : Environment) (token : String) : Option String :=
  match Text.splitOnce (· == ':') token.toList with
  | some (key, default) => some ((e.raw? (String.ofList key)).getD (String.ofList default))
  | none                => e.raw? token

/-- Follows the references in a value, at most `n` times over. -/
def follow (e : Environment) : Nat → List Char → List Char
  | 0,     cs => cs
  | n + 1, cs =>
    if !Placeholder.opensToken cs then cs
    else
      let next := Placeholder.substitute e.lookup? cs
      if next == cs then cs else e.follow n next

/-- How often references in a value are followed. -/
def followLimit : Nat := 8

/-- A value with the references in it followed. -/
def interpolate (e : Environment) (value : String) : String :=
  String.ofList (e.follow followLimit value.toList)

def get? (e : Environment) (key : String) : Option String := (e.raw? key).map e.interpolate

/-- The value of a token. -/
def resolve? (e : Environment) (token : String) : Option String :=
  (e.lookup? token).map e.interpolate

/-- The names of the application files, in the order in which they are read. -/
def fileNames (environments : List String) : List (String × SourceFormat) :=
  ("application" :: environments.map ("application-" ++ ·)).flatMap fun stem =>
    [(stem ++ ".yml", .yaml), (stem ++ ".yaml", .yaml), (stem ++ ".json", .json)]

/-- The tree in an application file. -/
def readTree? (files : FileTree) (path : String) (format : SourceFormat) : Option Json :=
  (files.readText? path).bind fun text =>
    match format with
    | .json => Json.read? text
    | .yaml => Yaml.read? text

/-- Reads one application file over the keys of those before it. -/
def loadFile (files : FileTree) (dir : String) (read : Keyed String × List Warning)
    (file : String × SourceFormat) : Keyed String × List Warning :=
  let path := PathText.join dir file.1
  if !files.isFile path then read
  else match readTree? files path file.2 with
    | some tree => (tree.flattenInto read.1, read.2)
    | none      => (read.1, read.2 ++ [.unreadableConfig path])

/-- Reads the application files of a directory; one that cannot be read is reported. -/
def load (files : FileTree) (dir : String) (environments : List String)
    (exported : List (String × String)) : Environment × List Warning :=
  let (properties, warnings) := (fileNames environments).foldl (loadFile files dir) ([], [])
  ({ properties, exported := Keyed.ofList exported }, warnings)

end Environment

end ApiAssembly
