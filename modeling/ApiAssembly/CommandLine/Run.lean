import ApiAssembly.Assembly.Assembler
import ApiAssembly.CommandLine.Invocation
import ApiAssembly.CommandLine.LatinSlugs

/-!
# CommandLine — Run — one run from the arguments to the written files

A run builds the context, takes the base document and the endpoints, and finishes once into the
file tree. It ends in the fault that comes first: in the arguments, in a file that is named by them,
or in the finish.
-/

namespace ApiAssembly

/-- Why a run ends without success. -/
inductive RunFault where
  | arguments (reason : ArgumentFault)
  | readingDocument (path : String)
  | readingEndpoints (path : String)
  | document (reason : DocumentFault)
  | assembling (reason : FinishFault)
  deriving DecidableEq

/-- The words for a fault. -/
def RunFault.message : RunFault → String
  | .arguments _           => "parsing arguments"
  | .readingDocument path  => "reading document " ++ path
  | .readingEndpoints path => "reading endpoints " ++ path
  | .document reason       => reason.message
  | .assembling _          => "assembling documents"

namespace Invocation

/-- What the context is built from: a properties file that is named counts as a definition. -/
def contextInput (v : Invocation) (exported : List (String × String)) : ContextInput where
  projectDir := v.projectDir
  system := v.properties ++ v.config.toList.map fun path => (Key.configFile, path)
  exported := exported
  slugger := latinSlugger

/-- Reads the base document: JSON by the extension of its path, else YAML. -/
def readBase (files : FileTree) (path : String) : Except RunFault Document :=
  match files.readText? path with
  | none      => .error (.readingDocument path)
  | some text =>
    let json := ((PathText.extension? path).map fun e => equalIgnoringCase e "json").getD false
    (Document.ofText (if json then .json else .yaml) path text).mapError .document

/-- Reads the endpoints. -/
def readEndpoints (files : FileTree) (path : String) : Except RunFault (List Endpoint) :=
  match files.readText? path with
  | none      => .error (.readingEndpoints path)
  | some text => (Endpoint.readList text).mapError fun f => .document (.ofFault path f)

/-- The inputs of a run. -/
def assembler (v : Invocation) (exported : List (String × String)) (files : FileTree) :
    Except RunFault Assembler := do
  let (context, warnings) := (v.contextInput exported).build files
  let a := Assembler.visit { context, warnings } files (← readBase files v.base)
  match v.endpoints with
  | some path => .ok (a.record (← readEndpoints files path))
  | none      => .ok a

/-- The files after a run, and its report or its fault. -/
def run (v : Invocation) (exported : List (String × String)) (files : FileTree) :
    FileTree × Except RunFault Report :=
  match v.assembler exported files with
  | .error f => (files, .error f)
  | .ok a    =>
    let f := a.finish (Emitter.files a.context.targetFile? v.outDir) files
    (f.state, f.result.mapError .assembling)

/-- The paths that a run reads, as far as the files that are known tell. -/
def paths (v : Invocation) (exported : List (String × String)) (files : FileTree) :
    List String :=
  let input := v.contextInput exported
  let environments := ContextInput.environments (input.firstLayers files).1
  let applications := (Environment.fileNames environments).map fun f =>
    PathText.join v.projectDir f.1
  v.base :: v.endpoints.toList ++ input.propertiesPath :: applications ++
    (input.build files).1.additionalFiles?.toList

end Invocation

/-- The files after a run with some arguments, and its report or its fault. -/
def runArguments (args : List String) (exported : List (String × String)) (files : FileTree) :
    FileTree × Except RunFault Report :=
  match Invocation.ofArguments args with
  | .error f => (files, .error (.arguments f))
  | .ok v    => v.run exported files

end ApiAssembly
