import ApiAssembly.Document.Coding
import ApiAssembly.Warning
import ApiAssembly.Yaml.Value

/-!
# Document — Source — documents from texts

A document comes from JSON or from YAML text. YAML text is read as a value first, so that a
mismatch has the same place and words in both.
-/

namespace ApiAssembly

/-- The format of a text that holds a document. -/
inductive SourceFormat where
  | json | yaml
  deriving DecidableEq

namespace Document

/-- Reads a document from a text; `origin` is what messages call it. -/
def ofText (format : SourceFormat) (origin text : String) : Except DocumentFault Document :=
  match format with
  | .json => (Document.read text).mapError (.ofFault origin)
  | .yaml =>
    match Yaml.read? text with
    | none   => .error .yaml
    | some j => (Document.ofJson j).mapError (.ofFault origin)

end Document

end ApiAssembly
