import ApiAssembly.Text.Basic

/-!
# CommandLine — Invocation — what the arguments ask for

An option is followed by its value in the next argument, whatever that is. Of an option that is
given twice the first one counts; the short name of an option is looked for before the long one.
Definitions may be given any number of times. What is left of the arguments is ignored.
-/

namespace ApiAssembly

/-- Why arguments cannot be used. -/
inductive ArgumentFault where
  | missing (option : String)
  | withoutValue (option : String)
  | noDefinition (text : String)
  deriving DecidableEq

/-- What the arguments ask for. -/
structure Invocation where
  base : String
  endpoints : Option String := none
  config : Option String := none
  projectDir : String := "."
  outDir : Option String := none
  properties : List (String × String) := []
  deriving DecidableEq

namespace Invocation

/-- The value behind the first place of an option, and the arguments without both. -/
def takeNamed (name : String) :
    List String → Except ArgumentFault (Option (String × List String))
  | []        => .ok none
  | [a]       => if a = name then .error (.withoutValue name) else .ok none
  | a :: b :: rest =>
    if a = name then .ok (some (b, rest))
    else do
      match ← takeNamed name (b :: rest) with
      | some (value, rest) => .ok (some (value, a :: rest))
      | none               => .ok none

/-- Takes an option by its short name, or else by its long one. -/
def takeOption (short long : String) (args : List String) :
    Except ArgumentFault (Option String × List String) := do
  match ← takeNamed short args with
  | some (value, rest) => .ok (some value, rest)
  | none =>
    match ← takeNamed long args with
    | some (value, rest) => .ok (some value, rest)
    | none               => .ok (none, args)

/-- The values of an option that may be given any number of times. -/
def takeAll (name : String) : List String → Except ArgumentFault (List String)
  | []             => .ok []
  | [a]            => if a = name then .error (.withoutValue name) else .ok []
  | a :: b :: rest =>
    if a = name then do .ok (b :: (← takeAll name rest)) else takeAll name (b :: rest)

def isEquals (c : Char) : Bool := c == '='

/-- Reads a definition: a key and a value around the first equals sign. -/
def definition (text : String) : Except ArgumentFault (String × String) :=
  match Text.splitOnce isEquals text.toList with
  | some (key, value) =>
    .ok (String.ofList (Text.trim key), String.ofList (Text.trim value))
  | none              => .error (.noDefinition text)

/-- Reads the arguments. -/
def ofArguments (args : List String) : Except ArgumentFault Invocation := do
  let (base, args) ← takeOption "-b" "--base" args
  let some base := base | .error (.missing "--base")
  let (endpoints, args) ← takeOption "-e" "--endpoints" args
  let (config, args) ← takeOption "-c" "--config" args
  let (projectDir, args) ← takeOption "-p" "--project-dir" args
  let (outDir, args) ← takeOption "-o" "--out-dir" args
  let properties ← (← takeAll "-D" args).mapM definition
  .ok { base, endpoints, config, projectDir := projectDir.getD ".", outDir, properties }

end Invocation

end ApiAssembly
