import ApiAssembly.Document.Coding
import ApiAssembly.Yaml.Printer

/-!
# Output — Format — the texts of output documents

An output is YAML in block style, or JSON with one item or entry a line.
-/

namespace ApiAssembly

/-- The text format of outputs. -/
inductive OutputFormat where
  | yaml | json
  deriving DecidableEq

namespace OutputFormat

def ofFlag (json : Bool) : OutputFormat := if json then .json else .yaml

def name : OutputFormat → String
  | .yaml => "yaml"
  | .json => "json"

/-- The end of file names, with its point. -/
def extension : OutputFormat → String
  | .yaml => ".yml"
  | .json => ".json"

/-- The text of a document. -/
def render (f : OutputFormat) (d : Document) : String :=
  match f with
  | .yaml => Yaml.print d.toJson
  | .json => d.toJson.indented

end OutputFormat

end ApiAssembly
