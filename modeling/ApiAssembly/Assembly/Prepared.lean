import ApiAssembly.Config.Context
import ApiAssembly.ContextPath
import ApiAssembly.Naming.Strategy
import ApiAssembly.Normal.Document
import ApiAssembly.Output.Emitter
import ApiAssembly.Output.Filename
import ApiAssembly.Placeholder.Resolve

/-!
# Assembly — Prepared — outputs that are ready to be emitted

The document of an output is put under the context path, normalized, has its property names
changed and its tokens replaced; then its file is named and it is rendered. All of this is a
function of the context and the output alone: what an emitter answers for one output has no
influence on another.
-/

namespace ApiAssembly

/-- An output with its final document and its rendering. -/
structure Prepared where
  output : OutputDocument
  rendered : Rendered
  /-- The tokens that its document keeps. -/
  unresolved : List String := []

namespace Context

/-- The text format of outputs. -/
def format (c : Context) : OutputFormat := .ofFlag c.jsonFormat

/-- The strategy that names the properties, where a known one is set. -/
def strategy? (c : Context) : Option NamingStrategy :=
  c.namingStrategy?.bind NamingStrategy.ofName?

/-- The warning for a strategy that is not known. -/
def strategyWarnings (c : Context) : List Warning :=
  match c.namingStrategy? with
  | some name => if (NamingStrategy.ofName? name).isNone then [.unknownNamingStrategy name] else []
  | none      => []

/-- Puts a document under the context path that is set. -/
def place (c : Context) (d : Document) : Document :=
  match c.contextPath? with
  | some path => d.underContextPath path
  | none      => d

/-- Renames the properties of a document by the strategy that is set. -/
def rename (c : Context) (d : Document) : Document :=
  match c.strategy? with
  | some s => d.rename s.translate
  | none   => d

/-- A document as it is written, but for its tokens. -/
def arrange (c : Context) (d : Document) : Document := c.rename (c.place d).normalize

/-- What the file names of a run with some outputs go by. -/
def filenameRule (c : Context) (count : Nat) : FilenameRule :=
  { count, format := c.format, configured := c.filename?, expander := c.expander,
    slugger := c.slugger }

/-- What messages call a document whose tokens are replaced. -/
def resolvedOrigin : String := "<resolved>"

/-- Prepares one of some outputs; replacing tokens can leave a value that is no document. -/
def prepare (c : Context) (count : Nat) (o : OutputDocument) : Except DocumentFault Prepared :=
  let arranged := c.arrange o.document
  match c.expander.resolveDocument arranged with
  | .error f     => .error (.ofFault resolvedOrigin f)
  | .ok document =>
    let o := { o with document }
    .ok
      { output := o
        rendered :=
          { key := o.key
            filename := (c.filenameRule count).filename o
            contents := c.format.render document
            single := count == 1 }
        unresolved := c.expander.unresolvedIn arranged.toJson }

/-- Preparing an output changes its document alone, and the name goes by the document it gets. -/
theorem output_of_prepare_eq_ok {c : Context} {count : Nat} {o : OutputDocument} {x : Prepared}
    (h : c.prepare count o = .ok x) :
    x.output = { o with document := x.output.document } ∧ x.rendered.key = o.key ∧
      x.rendered.filename = (c.filenameRule count).filename x.output ∧
      x.rendered.single = (count == 1) := by
  rw [prepare] at h
  dsimp only at h
  split at h
  case h_1 => cases h
  case h_2 =>
    obtain rfl := Except.ok.inj h
    exact ⟨rfl, rfl, rfl, rfl⟩

end Context

end ApiAssembly
