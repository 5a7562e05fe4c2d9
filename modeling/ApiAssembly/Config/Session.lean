import ApiAssembly.Config.Context

/-!
# Config — Session — a context and the warnings that using it records

The type rules are read when the first type is looked up; the warnings for rules that are dropped
are recorded then, and once.
-/

namespace ApiAssembly

/-- A context with the warnings recorded so far. -/
structure Session where
  context : Context
  warnings : List Warning := []
  /-- Whether the type rules were read. -/
  rulesRead : Bool := false

namespace Session

/-- Builds a context. -/
def start (files : FileTree) (input : ContextInput) : Session :=
  let (context, warnings) := input.build files
  { context, warnings }

/-- Reads the type rules unless that was done. -/
def readRules (s : Session) : Session :=
  if s.rulesRead then s
  else { s with rulesRead := true, warnings := s.warnings ++ s.context.typeRules.warnings }

/-- The target for a type, after the type rules were read. -/
def typeTarget? (s : Session) (name : String) (arguments : List String) :
    Session × Option String :=
  (s.readRules, s.context.typeRules.target? name arguments)

/-- The name of a schema of a package, where there is a decoration for the package. -/
def decorate? (s : Session) (package name : String) : Option String :=
  (s.context.decorations.get? package).map fun d => d.apply name

end Session

end ApiAssembly
