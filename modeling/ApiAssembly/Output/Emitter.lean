import ApiAssembly.Files.Tree
import ApiAssembly.Partition

/-!
# Output — Emitter — where outputs go

An emitter takes rendered outputs one by one: it changes a state and answers the path of the output,
or why there is none. `Emitter.memory` keeps names and texts in order. `Emitter.files` writes into a
file tree: the only output of a run goes to the target file where there is one; otherwise outputs go
into the directory of the target file, or else into the output directory.
-/

namespace ApiAssembly

/-- An output that is ready to be written. -/
structure Rendered where
  key : OutputKey := {}
  filename : String
  contents : String
  /-- Whether it is the only output of the run. -/
  single : Bool
  deriving DecidableEq

/-- Why an output cannot be written. -/
inductive EmitFault where
  | noDestination (filename : String)
  | io
  deriving DecidableEq

/-- What taking an output does to a state, and the path or the fault that is answered. -/
structure Emitter (σ : Type) where
  emit : σ → Rendered → σ × Except EmitFault String

namespace Emitter

/-- Keeps the names and texts of outputs. -/
def memory : Emitter (List (String × String)) where
  emit kept r := (kept ++ [(r.filename, r.contents)], .ok r.filename)

/-- The directory of a target file; a bare name has none. -/
def targetDir? (target : Option String) : Option String :=
  (target.bind PathText.parent?).filter fun dir => !dir.isEmpty

/-- The path of an output. -/
def destination? (target outDir : Option String) (r : Rendered) : Option String :=
  (if r.single then target else none).or
    (((targetDir? target).or outDir).map fun dir => PathText.join dir r.filename)

/-- Writes a file; the directories on the way to it are made first. -/
def writeAt (t : FileTree) (path text : String) : FileTree × Except EmitFault String :=
  let (t, made) := t.makeDirectories ((PathText.parent? path).getD "")
  if !made then (t, .error .io)
  else match t.writeText? path text with
    | some t => (t, .ok path)
    | none   => (t, .error .io)

/-- Writes outputs into a file tree. -/
def files (target outDir : Option String) : Emitter FileTree where
  emit t r :=
    match destination? target outDir r with
    | some path => writeAt t path r.contents
    | none      => (t, .error (.noDestination r.filename))

end Emitter

end ApiAssembly
