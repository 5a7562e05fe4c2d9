import ApiAssembly.Assembly.Prepared

/-!
# Assembly — Delivery — prepared outputs on their way to an emitter

Prepared outputs are emitted in order. An output that cannot be written is reported and the others
go on; one that has no destination, or no document, ends the delivery.
-/

namespace ApiAssembly

/-- An output that was emitted. -/
structure EmittedOutput where
  key : OutputKey
  filename : String
  displayName : Option String := none
  primary : Bool := false
  path : String
  deriving DecidableEq

/-- Why a run ends without a report. -/
inductive FinishFault where
  | noDestination (filename : String)
  | document (reason : DocumentFault)
  deriving DecidableEq

def FinishFault.message : FinishFault → String
  | .noDestination filename =>
    "No destination for '" ++ filename ++ "': configure a target file or an output directory"
  | .document reason        => reason.message

/-- How far a delivery has come. -/
structure Delivery (σ : Type) where
  state : σ
  outputs : List EmittedOutput := []
  warnings : List Warning := []
  unresolved : List String := []
  fault : Option FinishFault := none

/-- What the report says of an output that went to a path. -/
def Prepared.emitted (x : Prepared) (path : String) : EmittedOutput :=
  { key := x.rendered.key
    filename := x.rendered.filename
    displayName := x.output.displayName
    primary := x.output.primary
    path }

namespace Delivery

variable {σ : Type}

/-- Counts in the tokens and the name of an output that is emitted next. -/
def announce (d : Delivery σ) (x : Prepared) : Delivery σ :=
  { d with
    warnings := d.warnings ++ FilenameRule.warnings x.rendered.filename
    unresolved := d.unresolved ++ x.unresolved }

/-- Emits outputs in order. -/
def run (em : Emitter σ) (d : Delivery σ) : List (Except DocumentFault Prepared) → Delivery σ
  | []             => d
  | .error f :: _  => { d with fault := some (.document f) }
  | .ok x :: rest  =>
    let d := d.announce x
    match em.emit d.state x.rendered with
    | (s, .ok path)                          =>
      run em { d with state := s, outputs := d.outputs ++ [x.emitted path] } rest
    | (s, .error .io)                        =>
      run em { d with state := s, warnings := d.warnings ++ [.emitFailed x.rendered.filename] } rest
    | (s, .error (.noDestination filename)) =>
      { d with state := s, fault := some (.noDestination filename) }

end Delivery

end ApiAssembly
