import ApiAssembly.Assembly.Delivery
import ApiAssembly.Merge.Document
import ApiAssembly.Merge.Folder

/-!
# Assembly — Assembler — the inputs of a run, and its finish

An assembler collects the base document, the endpoints and the documents that are known for some
groups. To finish means to merge the endpoints into the base document, to partition the result, and
to deliver the outputs. Every input counts; a finish does nothing while no input came after the last
one that gave a report, and neither does it without a base document or when the settings say so.

A finish never changes the inputs. When it ends in a fault it is as if nothing had been emitted, and
the warnings that it recorded stay.
-/

namespace ApiAssembly

/-- Whether inputs wait to be emitted. -/
inductive AssemblyState where
  | dirty | settled
  deriving DecidableEq

/-- What a finish did. -/
structure Report where
  outputs : List EmittedOutput := []
  warnings : List Warning := []
  deriving DecidableEq

/-- The inputs of a run. -/
structure Assembler where
  context : Context
  base : Option Document := none
  endpoints : List Endpoint := []
  known : Keyed Document := []
  /-- How many inputs came. -/
  observed : Nat := 0
  /-- How many inputs there were at the last finish that gave a report. -/
  emittedAt : Option Nat := none
  /-- The warnings that no report had yet. -/
  warnings : List Warning := []

/-- What a finish leaves: the assembler, the state of the emitter, and the report or the fault. -/
structure Finish (σ : Type) where
  assembler : Assembler
  state : σ
  result : Except FinishFault Report

namespace Assembler

def state (a : Assembler) : AssemblyState :=
  if a.emittedAt = some a.observed then .settled else .dirty

/-! ### Inputs -/

/-- The documents that are merged into the first base document. -/
def additional (a : Assembler) (files : FileTree) : List Document × List Warning :=
  match a.context.additionalFiles? with
  | some dir => Document.loadFolder files dir
  | none     => ([], [])

/-- The base document once another one came, and the warnings for it. The first one takes in the
additional documents; a later one is merged in, and its info counts. -/
def nextBase (a : Assembler) (files : FileTree) (d : Document) : Document × List Warning :=
  match a.base with
  | none      =>
    let (more, unreadable) := a.additional files
    let (base, duplicates) := d.mergeAll more
    (base, unreadable ++ duplicates)
  | some base =>
    let (merged, duplicates) := base.merge d
    ({ merged with info := d.info.or merged.info }, duplicates)

/-- Adds a base document. -/
def visit (a : Assembler) (files : FileTree) (d : Document) : Assembler :=
  let (base, warnings) := a.nextBase files d
  { a with base := some base, observed := a.observed + 1, warnings := a.warnings ++ warnings }

/-- Adds endpoints; each counts as an input. -/
def record (a : Assembler) (es : List Endpoint) : Assembler :=
  { a with endpoints := a.endpoints ++ es, observed := a.observed + es.length }

/-- Sets the document that the documents of a group start from. -/
def register (a : Assembler) (group : String) (d : Document) : Assembler :=
  { a with known := a.known.insert group d, observed := a.observed + 1 }

/-! ### Finish -/

/-- The outputs of the inputs that came over a base document. -/
def outputs (a : Assembler) (base : Document) : List OutputDocument :=
  Partitioning.outputs ⟨a.context.groups, a.known⟩ (base.addEndpoints a.endpoints) a.endpoints

/-- The outputs ready to be emitted. -/
def prepared (a : Assembler) (base : Document) : List (Except DocumentFault Prepared) :=
  let outputs := a.outputs base
  outputs.map (a.context.prepare outputs.length)

/-- Delivers the outputs over a base document. -/
def deliver {σ : Type} (a : Assembler) (base : Document) (em : Emitter σ) (s : σ) : Finish σ :=
  let d := Delivery.run em { state := s, warnings := a.context.strategyWarnings } (a.prepared base)
  match d.fault with
  | some fault =>
    { assembler := { a with warnings := a.warnings ++ d.warnings }
      state := d.state
      result := .error fault }
  | none       =>
    { assembler := { a with warnings := [], emittedAt := some a.observed }
      state := d.state
      result := .ok
        { outputs := d.outputs
          warnings := a.warnings ++ d.warnings ++ unresolvedWarnings d.unresolved } }

/-- Emits the outputs of the inputs that came, unless there is nothing to do. -/
def finish {σ : Type} (a : Assembler) (em : Emitter σ) (s : σ) : Finish σ :=
  match a.base with
  | none      => ⟨a, s, .ok {}⟩
  | some base =>
    if a.context.isEnabled && a.state == .dirty then a.deliver base em s else ⟨a, s, .ok {}⟩

/-! ### What the calls do to the inputs -/

theorem state_eq_settled_iff (a : Assembler) :
    a.state = .settled ↔ a.emittedAt = some a.observed := by
  unfold state
  split <;> simp [*]

@[simp] theorem observed_visit (a : Assembler) (files : FileTree) (d : Document) :
    (a.visit files d).observed = a.observed + 1 := rfl

@[simp] theorem observed_record (a : Assembler) (es : List Endpoint) :
    (a.record es).observed = a.observed + es.length := rfl

@[simp] theorem observed_register (a : Assembler) (group : String) (d : Document) :
    (a.register group d).observed = a.observed + 1 := rfl

/-- A finish changes nothing of an assembler but the emission point and the warnings. -/
theorem finish_inputs {σ : Type} (a : Assembler) (em : Emitter σ) (s : σ) :
    ∃ at? ws, (a.finish em s).assembler = { a with emittedAt := at?, warnings := ws } := by
  unfold finish
  split
  · exact ⟨_, _, rfl⟩
  · split
    · unfold deliver
      dsimp only
      split <;> exact ⟨_, _, rfl⟩
    · exact ⟨_, _, rfl⟩

/-- A finish with a fault leaves the emission point where it was. -/
theorem emittedAt_deliver_of_error {σ : Type} {a : Assembler} {base : Document} {em : Emitter σ}
    {s : σ} {fault : FinishFault} (h : (a.deliver base em s).result = .error fault) :
    (a.deliver base em s).assembler.emittedAt = a.emittedAt := by
  unfold deliver at h ⊢
  dsimp only at h ⊢
  split at h
  · rfl
  · cases h

end Assembler

end ApiAssembly
