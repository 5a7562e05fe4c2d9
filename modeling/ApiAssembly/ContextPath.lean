import ApiAssembly.Document.Basic
import ApiAssembly.Text.Basic

/-!
# ContextPath — paths under a server context path

Every path of a document is put under the context path, unless its text begins with it already.
There is one slash at the junction, and a key begins with a slash unless it begins with a dollar
sign. Of two paths that become one the last item counts and the first place stays.
-/

namespace ApiAssembly

def isSlash (c : Char) : Bool := c == '/'

/-- A path behind a context path, with one slash between them. -/
def joinPaths (context path : List Char) : List Char :=
  let context := Text.dropEndWhile isSlash context
  let path := path.dropWhile isSlash
  if context.isEmpty then '/' :: path
  else if path.isEmpty then context
  else context ++ '/' :: path

/-- The key of a path under a context path. -/
def pathUnder (context path : List Char) : List Char :=
  let joined := if context.isPrefixOf path then path else joinPaths context path
  match joined with
  | '/' :: _ => joined
  | '$' :: _ => joined
  | _        => '/' :: joined

/-- Puts every path of a document under a context path; a blank one changes nothing. -/
def Document.underContextPath (context : String) (d : Document) : Document :=
  let context := Text.trim context.toList
  if context.isEmpty then d
  else { d with paths := Keyed.ofList (d.paths.map fun entry =>
    (String.ofList (pathUnder context entry.1.toList), entry.2)) }

end ApiAssembly
