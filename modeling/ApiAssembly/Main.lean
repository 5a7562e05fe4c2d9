import ApiAssembly.CommandLine.Run

/-!
# Main — the command line

Looks at the files that a run may read, runs on the tree of them, and writes the files that are new
or changed. The exit code is 0 after a success and 1 after a fault.
-/

namespace ApiAssembly

namespace CommandLine

/-- The environment variables of the process. -/
def exported : IO (List (String × String)) := do
  let bytes ← try IO.FS.readBinFile "/proc/self/environ" catch _ => pure ByteArray.empty
  match String.fromUTF8? bytes with
  | none      => return []
  | some text =>
    return (Text.splitAll (fun c => c.toNat == 0) text.toList).filterMap fun entry =>
      (Text.splitOnce (· == '=') entry).map fun (name, value) =>
        (String.ofList name, String.ofList value)

/-- Adds a file to the tree of known files. -/
def lookAtFile (files : FileTree) (path : String) : IO FileTree := do
  try return files.place path (.ofBytes (← IO.FS.readBinFile path)) catch _ => return files

/-- Adds what is at a path to the tree of known files: a file, or a directory with its files. -/
def lookAt (files : FileTree) (path : String) : IO FileTree := do
  let names ← try pure (some (← ((← IO.currentDir) / path).readDir)) catch _ => pure none
  match names with
  | none       => lookAtFile files path
  | some names =>
    names.foldlM (fun files entry => lookAtFile files (PathText.join path entry.fileName))
      (files.makeDirectories path).1

/-- How often the paths of a run are looked at: the files of one round tell the paths of the next,
from the properties file to the application files to the directory of additional documents. -/
def rounds : Nat := 3

/-- The tree of the files that a run may read. -/
def look (v : Invocation) (exported : List (String × String)) : IO FileTree := do
  let start : FileTree := {}
  let home := (← IO.currentDir).toString
  let (root, parts) := start.partsOf home
  let start := { (start.makeDirectories home).1 with home := root ++ parts }
  (List.range rounds).foldlM
    (fun files _ => (v.paths exported files).foldlM lookAt files) start

/-- Writes the files that are new or changed. -/
def write (before after : FileTree) : IO Unit := do
  for (path, contents) in before.changes after do
    match contents with
    | .binary _  => pure ()
    | .text text =>
      try
        IO.FS.createDirAll ((PathText.parent? path).getD "")
        IO.FS.writeFile path text
      catch e => IO.eprintln ("Unable to write " ++ path ++ ": " ++ toString e)

/-- Reports a fault. -/
def fail (fault : RunFault) : IO UInt32 := do
  IO.eprintln ("Error: " ++ fault.message)
  return 1

/-- Runs with some arguments. -/
def run (args : List String) : IO UInt32 := do
  match Invocation.ofArguments args with
  | .error reason => fail (.arguments reason)
  | .ok v         =>
    let exported ← exported
    let files ← look v exported
    let (after, result) := v.run exported files
    write files after
    match result with
    | .error fault => fail fault
    | .ok report   =>
      for warning in report.warnings do
        IO.eprintln ("Warning: " ++ warning.message)
      return 0

end CommandLine

end ApiAssembly

def main (args : List String) : IO UInt32 := ApiAssembly.CommandLine.run args
