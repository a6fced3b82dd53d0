import StyleFamily.Kotlin.Unit
import StyleFamily.Pipeline

/-!
# Emission

From what a scan found to a unit in a sink. A unit is handed over only when the whole compilation
went through without an error; in every other case the sink is left as it was.
-/
namespace StyleFamily

/-- Why there is no component to generate for. -/
inductive ScanMiss
  | noHolder
  | underivableName (declaration suffix : String)
deriving DecidableEq

def ScanMiss.text : ScanMiss → String
  | .noHolder => "no properties holder declaration found"
  | .underivableName declaration suffix =>
    "cannot derive a component name from '" ++ declaration ++ "': it does not end with '" ++
      suffix ++ "'"

/-- A remark of the scan as a diagnostic. -/
def ScanNote.diagnostic (note : ScanNote) : Diagnostic :=
  ⟨.warning, "scan", note.message, note.location⟩

/-- A unit that a sink took. -/
structure Emission where
  unit : SourceUnit
  receipt : Receipt
  artifacts : Artifacts
  diagnostics : List Diagnostic

inductive Outcome
  | noDeclaration (miss : ScanMiss)
  | rejected (diagnostics : List Diagnostic)
  | emitted (emission : Emission)

namespace Outcome

def isEmitted : Outcome → Bool
  | .emitted _ => true
  | _ => false

def diagnostics : Outcome → List Diagnostic
  | .noDeclaration _ => []
  | .rejected diagnostics => diagnostics
  | .emitted emission => emission.diagnostics

end Outcome

/-- Why an emission came to no outcome. -/
inductive EmissionFailure
  | pipeline (failure : PipelineFailure)
  | sink (error : SinkError)
deriving DecidableEq

def EmissionFailure.messages : EmissionFailure → List String
  | .pipeline failure => failure.messages
  | .sink error => [error.message]

/-- A context that opens with the remarks of the scan. -/
def Context.ofScan (schema : Schema) (notes : List ScanNote) : Context :=
  { schema, diagnostics := notes.map ScanNote.diagnostic }

/-- The component that a scan found, and its remarks. -/
def ScanOutcome.found? : ScanOutcome → Except ScanMiss (Schema × List ScanNote)
  | .found schema notes => .ok (schema, notes)
  | .noHolder => .error .noHolder
  | .underivableName declaration suffix => .error (.underivableName declaration suffix)

/-- The family of a context that came through without an error. -/
def Context.accepted? (context : Context) : Option Artifacts :=
  if context.hasErrors then none else context.artifacts

namespace Pipeline

variable [Monad m]

/-- Compiles what a scan found. -/
def compile (pipeline : Pipeline m) (scan : ScanOutcome) :
    ExceptT PipelineFailure m (Except ScanMiss Context) :=
  match scan.found? with
  | .error miss => pure (.error miss)
  | .ok (schema, notes) => .ok <$> pipeline.run (.ofScan schema notes)

/-- Compiles what a scan found and hands the unit to the sink. -/
def emit (pipeline : Pipeline m) (language : Language) (scan : ScanOutcome) (target : Target)
    (sink : Sink m) : ExceptT EmissionFailure m Outcome := do
  match ← (pipeline.compile scan).adapt EmissionFailure.pipeline with
  | .error miss => pure (.noDeclaration miss)
  | .ok context =>
    match context.accepted? with
    | none => pure (.rejected context.diagnostics)
    | some artifacts =>
      let unit := language.unit artifacts target.package
      let receipt ← ExceptT.adapt EmissionFailure.sink (.mk (sink.accept unit target))
      pure (.emitted ⟨unit, receipt, artifacts, context.diagnostics⟩)

end Pipeline
end StyleFamily
