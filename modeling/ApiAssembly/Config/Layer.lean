import ApiAssembly.Config.Environment
import ApiAssembly.Config.Properties

/-!
# Config — Layer — one source of settings

Settings come from layers in an order of precedence: what the caller gives, the properties file of
the project, and the environment. A layer has values under keys, and the value of a token is in the
first two the value under the key of that name.
-/

namespace ApiAssembly

/-- A source of settings. -/
inductive Layer where
  | system (properties : Keyed String)
  | file (properties : Keyed String)
  | environment (e : Environment)

namespace Layer

def name : Layer → String
  | .system _      => "system"
  | .file _        => "file"
  | .environment _ => "environment"

/-- The value under a key. -/
def get? : Layer → String → Option String
  | .system m,      key => m.get? key
  | .file m,        key => m.get? key
  | .environment e, key => e.get? key

/-- The keys that begin with a text, in order. -/
def keysUnder (start : String) : Layer → List String
  | .system m      => ApiAssembly.keysUnder start m
  | .file m        => ApiAssembly.keysUnder start m
  | .environment e => ApiAssembly.keysUnder start e.properties

/-- The value of a token. -/
def resolve? : Layer → String → Option String
  | .system m,      token => m.get? token
  | .file m,        token => m.get? token
  | .environment e, token => e.resolve? token

/-- The entries whose keys begin with a text. -/
def entriesUnder (start : String) (l : Layer) : List (String × String) :=
  (l.keysUnder start).filterMap fun key => (l.get? key).map fun value => (key, value)

end Layer

/-- The value of the first layer that has one. -/
def firstValue? (layers : List Layer) (key : String) : Option String :=
  layers.findSome? fun l => l.get? key

/-- The value of the first layer that has one which is not blank. -/
def property? (layers : List Layer) (key : String) : Option String :=
  (layers.filterMap fun l => l.get? key).find? fun value => !blankText value

/-- The value of a token in the first layer that has one. -/
def resolveToken? (layers : List Layer) (token : String) : Option String :=
  layers.findSome? fun l => l.resolve? token

/-- The entries whose keys begin with a text, layer by layer. -/
def entriesUnder (layers : List Layer) (start : String) : List (String × String) :=
  layers.flatMap (Layer.entriesUnder start)

end ApiAssembly
