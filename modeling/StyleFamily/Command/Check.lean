import StyleFamily.Command.Summary
import StyleFamily.Manifest.File

/-!
# Checking a manifest

Compiles the component of a manifest without rendering anything.
-/
namespace StyleFamily

structure CheckReport where
  path : Path
  /-- The component, if a holder of properties was found. -/
  component : Option String
  /-- Why there is no component. -/
  miss : Option ScanMiss
  propertyCount : Nat
  diagnostics : DiagnosticSummary

namespace CheckReport

/-- Whether generation would succeed. -/
def isValid (report : CheckReport) : Bool := report.miss.isNone && !report.diagnostics.hasErrors

def lines (report : CheckReport) : List Line :=
  match report.miss with
  | some miss => Report.error miss.text
  | none =>
    report.diagnostics.lines ++ (if report.diagnostics.isEmpty then [] else Report.newline) ++
      if report.isValid then
        Report.preformatted ("✓ " ++ report.path.text ++ " is valid") ++
          report.component.toList.flatMap fun component =>
            Report.keyValueIndented component
              (Text.counted report.propertyCount "property" "properties")
      else []

end CheckReport

/-- Scans and compiles; nothing is written. -/
def ManifestFile.check (file : ManifestFile) : Except CommandFailure CheckReport :=
  match (({} : Pipeline Id).compile file.manifest.scan).run with
  | .error failure => .error (.validation failure)
  | .ok (.error miss) => .ok ⟨file.path, none, some miss, 0, {}⟩
  | .ok (.ok context) =>
    .ok ⟨file.path, some context.schema.name, none, context.schema.properties.size,
      .ofDiagnostics context.diagnostics⟩

end StyleFamily
