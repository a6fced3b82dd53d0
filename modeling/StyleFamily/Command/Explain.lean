import StyleFamily.Command.Summary
import StyleFamily.Manifest.File
import StyleFamily.Model.Style

/-!
# Explaining a manifest

Describes the pipeline and what it would make of a manifest: the component, its declarations and
the values an unconfigured builder resolves to.
-/
namespace StyleFamily

/-- What would be generated. -/
structure Analysis where
  holder : String
  component : String
  /-- Each category by its description, with the properties under it. -/
  categories : List (String × List String)
  declarations : List String
  accessor : String
  /-- Each property with its record, and the expression it falls back to. -/
  defaults : List (String × String)
  unitPath : Path
  notes : List String

/-- Why nothing would be generated. -/
inductive NoAnalysis
  | miss (cause : ScanMiss)
  | rejected (errors : List String)
deriving DecidableEq

def NoAnalysis.text : NoAnalysis → String
  | .miss cause => cause.text
  | .rejected errors => "schema rejected: " ++ "; ".intercalate errors

structure ExplainReport where
  path : Path
  manifest : Manifest
  outputDirectory : Path
  /-- Phases with their descriptions. -/
  phases : List (String × String)
  /-- Lints with their descriptions. -/
  lints : List (String × String)
  analysis : Except NoAnalysis Analysis

namespace Analysis

def lines (analysis : Analysis) : List Line :=
  Report.sectionNamed "Analysis Results" ++
  Report.keyValueIndented "Holder" analysis.holder ++
  Report.keyValueIndented "Component" analysis.component ++
  (analysis.categories.flatMap fun (name, properties) =>
    Report.keyValueIndented name
      (if properties.isEmpty then "-" else ", ".intercalate properties)) ++
  Report.newline ++
  (if analysis.notes.isEmpty then []
    else Report.sectionNamed "Notes" ++ analysis.notes.flatMap Report.listItem ++
      Report.newline) ++
  Report.sectionNamed "Declarations" ++
  analysis.declarations.flatMap Report.listItem ++
  Report.keyValueIndented "Accessor" analysis.accessor ++
  Report.newline ++
  (if analysis.defaults.isEmpty then []
    else Report.sectionNamed "Defaults" ++
      (analysis.defaults.flatMap fun (property, value) =>
        Report.listItem (property ++ " = " ++ value)) ++
      Report.newline) ++
  Report.sectionNamed "File to Generate" ++
  Report.listItem analysis.unitPath.text

end Analysis

namespace ExplainReport

def lines (report : ExplainReport) : List Line :=
  Report.title "Stylegen Pipeline Explanation" ++
  Report.newline ++
  Report.keyValue "Input" report.path.text ++
  Report.keyValueIndented "Package" report.manifest.output.package ++
  Report.keyValueIndented "Output" report.outputDirectory.text ++
  Report.keyValueIndented "Owner" report.manifest.scanner.owner ++
  Report.keyValueIndented "Suffix" report.manifest.scanner.suffix ++
  Report.keyValueIndented "Declarations" (toString report.manifest.declarations.length) ++
  Report.newline ++
  Report.sectionNamed "Classification Order" ++
  Report.numbered (Category.classificationOrder.map fun c => c.text ++ " (" ++ c.marker ++ ")") ++
  Report.newline ++
  Report.sectionNamed "Pipeline Phases" ++
  Report.numbered (report.phases.map fun (name, description) => name ++ " - " ++ description) ++
  Report.newline ++
  Report.sectionNamed "Validation Lints" ++
  (report.lints.flatMap fun (name, description) => Report.listItem (name ++ ": " ++ description)) ++
  Report.newline ++
  match report.analysis with
  | .ok analysis => analysis.lines
  | .error reason =>
    Report.sectionNamed "Analysis Results" ++
      Report.keyValueIndented "Nothing to generate" reason.text

end ExplainReport

/-- The fields of a record by their full names, with the expressions of their values. -/
def Record.defaults (record : Record) : List (String × String) :=
  record.fields.map fun (name, value) =>
    (record.typeName ++ "." ++ name, Kotlin.spellValue value)

/-- The fields of a style, group by group. -/
def Style.defaults (style : Style) : List (String × String) :=
  style.properties.defaults ++ style.colors.defaults ++ style.dimensions.defaults

/-- What an accepted context would lead to. -/
def ManifestFile.analyze (file : ManifestFile) (context : Context) :
    Except CommandFailure (Except NoAnalysis Analysis) :=
  match context.accepted? with
  | none =>
    .ok (.error (.rejected ((Diagnostic.ofSeverity .error context.diagnostics).map (·.message))))
  | some artifacts =>
    match StyleBuilder.ofArtifacts artifacts with
    | .error error => .error (.inconsistent error)
    | .ok builder =>
      let target := file.target none
      .ok (.ok
        { holder := (file.manifest.holder?.map (·.name)).getD ""
          component := context.schema.name
          categories := Category.all.map fun category =>
            (category.description, context.schema.properties.names category)
          declarations := artifacts.names.declarations
          accessor := artifacts.accessor.name
          defaults := builder.build.defaults
          unitPath := target.pathOf (Language.kotlin.unit artifacts target.package)
          notes := (context.diagnostics.filter (!·.isError)).map Diagnostic.text })

/-- Scans and compiles, and reports what generation would come to. -/
def ManifestFile.explain (file : ManifestFile) : Except CommandFailure ExplainReport := do
  let pipeline : Pipeline Id := {}
  let analysis ← match (pipeline.compile file.manifest.scan).run with
    | .error failure => .error (.pipeline failure)
    | .ok (.error miss) => .ok (.error (.miss miss))
    | .ok (.ok context) => file.analyze context
  return { path := file.path
           manifest := file.manifest
           outputDirectory := file.outputDirectory
           phases := pipeline.phases.map fun phase => (phase.name, phase.description)
           lints := pipeline.lints.map fun lint => (lint.name, lint.description)
           analysis }

end StyleFamily
