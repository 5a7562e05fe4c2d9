import ApiAssembly.Config.Group
import ApiAssembly.Merge.Endpoint

/-!
# Partition — one document for each group and version

The package rules of the groups add groups and exclusions to the endpoints of a package. An
endpoint that then has neither group nor version is *common*. When all are, the unified document is
the only output. Otherwise an endpoint goes into the document of its version for each of its groups
that it is not excluded from, or into the ungrouped document of its version when it has no group; a
document is made when its first endpoint comes. The common endpoints then go into every document,
but not into those of groups that exclude common endpoints and not into those of groups that they
are excluded from.

A document starts from the one that is known for its group, or else from the metadata of the unified
document, and always has the components of the unified document.
-/

namespace ApiAssembly

/-- The group and the version of an output. -/
structure OutputKey where
  group : Option String := none
  version : Option String := none
  deriving DecidableEq

/-- The group and the version with a sign between them; a star for what is absent. -/
def OutputKey.text (k : OutputKey) : String := k.group.getD "*" ++ "@" ++ k.version.getD "*"

/-- A document of a partition, with the settings of its group. -/
structure OutputDocument where
  key : OutputKey
  document : Document
  filename : Option String := none
  displayName : Option String := none
  primary : Bool := false

/-- What the partition goes by. -/
structure Partitioning where
  groups : Keyed Group := []
  known : Keyed Document := []

/-- The groups of an endpoint, and those that it is excluded from. -/
structure Membership where
  groups : TextSet
  excluded : TextSet

namespace Partitioning

/-- The groups of an endpoint once the package rules are applied. -/
def membership (p : Partitioning) (e : Endpoint) : Membership :=
  match e.package with
  | none         => ⟨e.groups, e.excludedGroups⟩
  | some package =>
    ⟨e.groups.addAll ((p.groups.filter fun g => g.2.includesPackage package).map Prod.fst),
      e.excludedGroups.addAll ((p.groups.filter fun g => g.2.excludesPackage package).map Prod.fst)⟩

/-- Whether an endpoint belongs to no group and no version. -/
def isCommon (p : Partitioning) (e : Endpoint) : Bool :=
  (p.membership e).groups.isEmpty && e.version.isNone

/-- The keys of the documents that an endpoint goes into, unless it is common. -/
def keysOf (p : Partitioning) (e : Endpoint) : List OutputKey :=
  let m := p.membership e
  if m.groups.isEmpty then [⟨none, e.version⟩]
  else (m.groups.items.filter fun g => !m.excluded.contains g).map fun g => ⟨some g, e.version⟩

/-- What the documents of a group start from. -/
def seed (p : Partitioning) (unified : Document) (group : Option String) : Document :=
  let start :=
    match group.bind p.known.get? with
    | some d => d
    | none   =>
      { openapi := unified.openapi
        info := unified.info
        externalDocs := unified.externalDocs
        servers := unified.servers
        security := unified.security
        tags := unified.tags
        extensions := unified.extensions }
  { start with openapi := start.openapi.or unified.openapi, components := unified.components }

/-- A new output. -/
def newOutput (p : Partitioning) (unified : Document) (key : OutputKey) : OutputDocument :=
  let config := key.group.bind p.groups.get?
  { key
    document := p.seed unified key.group
    filename := config.bind Group.filename
    displayName := config.bind Group.displayName
    primary := (config.map Group.isPrimary).getD false }

/-- Adds an endpoint to the output of a key, which is made if it is not there. -/
def addToOutput (p : Partitioning) (unified : Document) (e : Endpoint)
    (outputs : List OutputDocument) (key : OutputKey) : List OutputDocument :=
  if outputs.any fun o => o.key == key then
    outputs.map fun o => if o.key == key then { o with document := o.document.addEndpoint e } else o
  else
    let o := p.newOutput unified key
    outputs ++ [{ o with document := o.document.addEndpoint e }]

/-- Whether a common endpoint goes into the documents of a group. -/
def takesCommon (p : Partitioning) (group : Option String) (e : Endpoint) : Bool :=
  match group with
  | none   => true
  | some g => !(p.membership e).excluded.contains g

/-- Whether the common endpoints stay out of the documents of a group. -/
def excludesCommon (p : Partitioning) (group : Option String) : Bool :=
  ((group.bind p.groups.get?).map Group.excludesCommon).getD false

/-- Adds the common endpoints to an output. -/
def addCommon (p : Partitioning) (common : List Endpoint) (o : OutputDocument) : OutputDocument :=
  if p.excludesCommon o.key.group then o
  else { o with document := o.document.addEndpoints (common.filter (p.takesCommon o.key.group)) }

/-- The outputs of a unified document and the endpoints in it. -/
def outputs (p : Partitioning) (unified : Document) (es : List Endpoint) : List OutputDocument :=
  if es.all p.isCommon then [{ key := {}, document := unified }]
  else
    let own := (es.filter fun e => !p.isCommon e).foldl
      (fun outputs e => (p.keysOf e).foldl (p.addToOutput unified e) outputs) []
    own.map (p.addCommon (es.filter p.isCommon))

end Partitioning

end ApiAssembly
