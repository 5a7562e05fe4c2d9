import ApiAssembly.Reading.Mismatch

/-!
# Warning — problems that a run gets over

A run goes on past a problem with a single file, token or output and reports it. `Warning.message`
has the words.
-/

namespace ApiAssembly

/-- Why a file cannot be used as a document. -/
inductive DocumentFault where
  | io
  | yaml
  | json
  | mismatch (origin : String) (place : Place) (cause : Mismatch)
  deriving DecidableEq

/-- A fault of a reading, with the name of what was read. -/
def DocumentFault.ofFault (origin : String) : Fault → DocumentFault
  | .malformed            => .json
  | .mismatch place cause => .mismatch origin place cause

def DocumentFault.message : DocumentFault → String
  | .io   => "I/O error"
  | .yaml => "YAML error"
  | .json => "malformed JSON"
  | .mismatch origin place cause =>
    "Invalid document '" ++ origin ++ "' at '" ++ placeText place ++ "': " ++ cause.message

/-- A problem that was got over. -/
inductive Warning where
  | unreadableDocument (origin : String) (reason : DocumentFault)
  | notADirectory (path : String)
  | unreadableConfig (origin : String)
  | unresolvedPlaceholder (token : String)
  | unknownSchemaTarget (typeName target : String)
  | unknownNamingStrategy (name : String)
  | duplicatePath (path : String)
  | unresolvedFilename (filename : String)
  | emitFailed (filename : String)
  deriving DecidableEq

namespace Warning

/-- The name of the kind of problem. -/
def kind : Warning → String
  | .unreadableDocument _ _  => "UnreadableDocument"
  | .notADirectory _         => "NotADirectory"
  | .unreadableConfig _      => "UnreadableConfig"
  | .unresolvedPlaceholder _ => "UnresolvedPlaceholder"
  | .unknownSchemaTarget _ _ => "UnknownSchemaTarget"
  | .unknownNamingStrategy _ => "UnknownNamingStrategy"
  | .duplicatePath _         => "DuplicatePath"
  | .unresolvedFilename _    => "UnresolvedFilename"
  | .emitFailed _            => "EmitFailed"

/-- The words for a problem. -/
def message : Warning → String
  | .unreadableDocument origin reason =>
    "Unable to read document '" ++ origin ++ "': " ++ reason.message
  | .notADirectory path => "'" ++ path ++ "' does not exist or is not a directory"
  | .unreadableConfig origin => "Unable to read configuration '" ++ origin ++ "': unreadable"
  | .unresolvedPlaceholder token => "Unresolved placeholder '$\x7b" ++ token ++ "\x7d'"
  | .unknownSchemaTarget typeName target =>
    "Unknown type '" ++ target ++ "' for custom schema '" ++ typeName ++ "', rule skipped"
  | .unknownNamingStrategy name => "Unknown property naming strategy '" ++ name ++ "'"
  | .duplicatePath path => "Path '" ++ path ++ "' declared more than once, keeping the last one"
  | .unresolvedFilename filename =>
    "Output file name '" ++ filename ++ "' contains an unresolved placeholder"
  | .emitFailed filename => "Unable to write '" ++ filename ++ "': I/O error"

end Warning

end ApiAssembly
