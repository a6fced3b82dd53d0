import StyleFamily.Diagnostic
import StyleFamily.Emission
import StyleFamily.Model.Record
import StyleFamily.Report

/-!
# What commands report of a compilation

Diagnostics by severity with their locations, and the causes for which a command fails altogether.
-/
namespace StyleFamily

/-- Messages by severity, each with its location on a line below. -/
structure DiagnosticSummary where
  errors : List String := []
  warnings : List String := []
  infos : List String := []
deriving DecidableEq

namespace DiagnosticSummary

def messageOf (d : Diagnostic) : String :=
  match d.location with
  | some location => d.message ++ "\n  --> " ++ location
  | none => d.message

def ofDiagnostics (diagnostics : List Diagnostic) : DiagnosticSummary where
  errors := (Diagnostic.ofSeverity .error diagnostics).map messageOf
  warnings := (Diagnostic.ofSeverity .warning diagnostics).map messageOf
  infos := (Diagnostic.ofSeverity .info diagnostics).map messageOf

def hasErrors (summary : DiagnosticSummary) : Bool := !summary.errors.isEmpty

def isEmpty (summary : DiagnosticSummary) : Bool :=
  summary.errors.isEmpty && summary.warnings.isEmpty && summary.infos.isEmpty

def lines (summary : DiagnosticSummary) : List Line :=
  summary.errors.flatMap Report.error ++ summary.warnings.flatMap Report.warning ++
    summary.infos.flatMap fun info => Report.preformatted ("info: " ++ info)

end DiagnosticSummary

/-- Why a command came to no report. -/
inductive CommandFailure
  | validation (failure : PipelineFailure)
  | pipeline (failure : PipelineFailure)
  | inconsistent (error : ModelError)
  | generation (failure : EmissionFailure)
deriving DecidableEq

/-- The wording of a failure, the outermost part first. -/
def CommandFailure.messages : CommandFailure → List String
  | .validation failure => "Validation failed" :: failure.messages
  | .pipeline failure => "Pipeline failed" :: failure.messages
  | .inconsistent error => ["Generated builders are inconsistent", error.message]
  | .generation failure => "Failed to generate code" :: failure.messages

end StyleFamily
