import ApiAssembly.Config.Group
import ApiAssembly.Config.TypeRule
import ApiAssembly.Output.Slug
import ApiAssembly.Placeholder.Expander

/-!
# Config — Context — the settings of a run

A context is the project directory and the layers of settings in their order of precedence, with
what the caller brings along: the catalog of types and the slugger of titles. All other settings are
functions of it. A setting has the value of the first layer in which it is not blank, but for two
that are read before there is an environment layer: whether there is one, and which environments are
active. Those take the value of the first layer that has any.
-/

namespace ApiAssembly

/-! ### The keys of settings -/

namespace Key

def enabled : String := "apiloom.enabled"
def configFile : String := "apiloom.config.file"
def targetFile : String := "apiloom.target.file"
def jsonFormat : String := "apiloom.json.format"
def filename : String := "apiloom.filename"
def namingStrategy : String := "apiloom.property.naming.strategy"
def contextPath : String := "apiloom.server.context.path"
def additionalFiles : String := "apiloom.additional.files"
def environments : String := "apiloom.environments"
def environmentEnabled : String := "apiloom.environment.enabled"
def expandStart : String := "apiloom.expand."
def groupsStart : String := "apiloom.groups."
def schemaStart : String := "apiloom.schema."
def schemaBeforeStart : String := "apiloom.schema-prefix."
def schemaAfterStart : String := "apiloom.schema-postfix."

/-- The properties file of a project that names no other. -/
def defaultConfigFile : String := "apiloom.properties"

end Key

/-- The settings of a run. -/
structure Context where
  projectDir : String := "."
  layers : List Layer := []
  catalog : TypeCatalog := .anyType
  [slugger : Slugger]

namespace Context

/-- The value of a setting. -/
def property? (c : Context) (key : String) : Option String := ApiAssembly.property? c.layers key

def flag (c : Context) (key : String) (default : Bool) : Bool :=
  match c.property? key with
  | some value => parseFlag value default
  | none       => default

def list (c : Context) (key : String) : List String :=
  match c.property? key with
  | some value => parseList value
  | none       => []

/-- A path seen from the project directory. -/
def resolvePath (c : Context) (path : String) : String := PathText.join c.projectDir path

def isEnabled (c : Context) : Bool := c.flag Key.enabled true

/-- Whether outputs are JSON. -/
def jsonFormat (c : Context) : Bool := c.flag Key.jsonFormat false

def targetFile? (c : Context) : Option String := (c.property? Key.targetFile).map c.resolvePath

def filename? (c : Context) : Option String := c.property? Key.filename

def namingStrategy? (c : Context) : Option String := c.property? Key.namingStrategy

def contextPath? (c : Context) : Option String := c.property? Key.contextPath

/-- The directory of additional documents. -/
def additionalFiles? (c : Context) : Option String :=
  (c.property? Key.additionalFiles).map c.resolvePath

def groups (c : Context) : Keyed Group :=
  Group.readAll Key.groupsStart (entriesUnder c.layers Key.groupsStart)

def typeRules (c : Context) : TypeRule.Table :=
  TypeRule.readAll Key.schemaStart c.catalog (entriesUnder c.layers Key.schemaStart)

def decorations (c : Context) : Keyed Decoration :=
  Decoration.readAll Key.schemaBeforeStart Key.schemaAfterStart
    (entriesUnder c.layers Key.schemaBeforeStart) (entriesUnder c.layers Key.schemaAfterStart)

/-- The aliases of tokens: of several for one token the first counts. -/
def aliases (c : Context) : List (String × String) :=
  (entriesUnder c.layers Key.expandStart).foldl (fun known entry =>
    Keyed.insertNew known
      (String.ofList (Placeholder.tokenChars (stripStarts Key.expandStart entry.1).toList))
      entry.2) []

/-- The expander of the texts of documents. -/
def expander (c : Context) : Expander := ⟨c.aliases, c.layers⟩

end Context

/-- What a context is built from. -/
structure ContextInput where
  projectDir : String := "."
  system : List (String × String) := []
  exported : List (String × String) := []
  catalog : TypeCatalog := .anyType
  [slugger : Slugger]

namespace ContextInput

/-- Reads a properties file: one that is missing is empty, one that is no text is reported too. -/
def loadProperties (files : FileTree) (path : String) : Keyed String × List Warning :=
  if !files.isThere path then ([], [])
  else match files.readText? path with
    | some text => (Properties.parse text, [])
    | none      => ([], [.unreadableConfig path])

/-- Where the properties file of the project is. -/
def propertiesPath (input : ContextInput) : String :=
  PathText.join input.projectDir
    (((Keyed.ofList input.system).get? Key.configFile).getD Key.defaultConfigFile)

/-- The layers that are there before the environment is read. -/
def firstLayers (files : FileTree) (input : ContextInput) : List Layer × List Warning :=
  let (properties, warnings) := loadProperties files input.propertiesPath
  ([.system (Keyed.ofList input.system), .file properties], warnings)

/-- Whether there is to be an environment layer. -/
def environmentEnabled (layers : List Layer) : Bool :=
  match firstValue? layers Key.environmentEnabled with
  | some value => parseFlag value true
  | none       => true

/-- The active environments. -/
def environments (layers : List Layer) : List String :=
  match firstValue? layers Key.environments with
  | some value => parseList value
  | none       => []

/-- The context of some layers. -/
def contextOf (input : ContextInput) (layers : List Layer) : Context where
  projectDir := input.projectDir
  layers := layers
  catalog := input.catalog
  slugger := input.slugger

@[simp] theorem layers_contextOf (input : ContextInput) (layers : List Layer) :
    (input.contextOf layers).layers = layers := rfl

/-- Builds the context, with the warnings for files that cannot be read. -/
def build (files : FileTree) (input : ContextInput) : Context × List Warning :=
  let (layers, warnings) := input.firstLayers files
  if environmentEnabled layers then
    let (environment, more) :=
      Environment.load files input.projectDir (environments layers) input.exported
    (input.contextOf (layers ++ [.environment environment]), warnings ++ more)
  else (input.contextOf layers, warnings)

end ContextInput

end ApiAssembly
