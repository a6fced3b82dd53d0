import StyleFamily.Command.Summary
import StyleFamily.Document.Snapshot
import StyleFamily.Manifest.File

/-!
# Generating a unit

Compiles the component of a manifest and writes its unit, or shows it without writing.
-/
namespace StyleFamily

structure GenerateOptions where
  /-- Takes the place of the manifest's output directory. -/
  output : Option Path := none
  /-- Show the unit instead of writing it. -/
  dryRun : Bool := false
  /-- Write a snapshot of the compilation after every phase. -/
  visualize : Bool := false

inductive GenerationResult
  | notGenerated (miss : ScanMiss)
  | rejected
  | written (receipt : Receipt) (declarations : List String)
  | preview (path : Path) (content : String)

structure GenerateReport where
  /-- The component, if a unit was made. -/
  component : Option String
  diagnostics : DiagnosticSummary
  /-- Where snapshots went. -/
  snapshots : Option Path
  result : GenerationResult

namespace GenerateReport

def isSuccess (report : GenerateReport) : Bool :=
  match report.result with
  | .written .. | .preview .. => true
  | .notGenerated _ | .rejected => false

def resultLines (report : GenerateReport) : List Line :=
  match report.result with
  | .notGenerated miss => Report.error ("nothing generated: " ++ miss.text)
  | .rejected =>
    Report.error ("nothing generated: schema rejected with " ++
      Text.counted report.diagnostics.errors.length "error" "errors")
  | .written receipt declarations =>
    report.component.toList.flatMap (Report.keyValue "Component") ++
      Report.sectionNamed "Declarations" ++ declarations.flatMap Report.listItem ++
      Report.newline ++
      match receipt.result with
      | .written => Report.addedItem receipt.path.text
      | .unchanged => Report.preformatted ("Unchanged: " ++ receipt.path.text)
  | .preview path content =>
    Report.divider path.text ++ Report.preformatted content ++ Report.divider "Summary" ++
      Report.preformatted "1 file would be generated"

def lines (report : GenerateReport) : List Line :=
  report.diagnostics.lines ++ report.resultLines ++
    report.snapshots.toList.flatMap fun directory =>
      Report.keyValue "Pipeline snapshots" directory.text

end GenerateReport

/-- The same files, reached while a state is passed along. -/
def FileAccess.beside [Monad m] (files : FileAccess m) : FileAccess (StateT σ m) where
  read path := files.read path
  createDirectories path := files.createDirectories path
  write path text := files.write path text
  rename source destination := files.rename source destination
  remove path := files.remove path

/-- The onlooker that writes snapshots, numbering them by a count it keeps. -/
def Plugin.writeSnapshots [Monad m] (files : FileAccess (StateT Nat m)) (directory : Path) :
    Plugin (StateT Nat m) :=
  .snapshots fun snapshot => do
    let index ← get
    let saved ← ExceptT.lift (snapshot.save files directory index)
    if saved then set (index + 1) else throw .unwritable

/-- A sink that says where a unit would go and keeps nothing. -/
def Sink.preview [Monad m] : Sink m where
  accept unit target := pure (.ok (MemoryStore.accept {} unit target).1)

namespace ManifestFile

/-- Where snapshots of a manifest's compilation go. -/
def snapshotDirectory (file : ManifestFile) : Path :=
  (file.path.parent?.getD ⟨"."⟩).join ⟨".stylegen/debug"⟩

/-- The report on an outcome. -/
def reportOf (dryRun : Bool) (snapshots : Option Path) (outcome : Outcome) : GenerateReport :=
  let diagnostics := DiagnosticSummary.ofDiagnostics outcome.diagnostics
  match outcome with
  | .noDeclaration miss => ⟨none, diagnostics, snapshots, .notGenerated miss⟩
  | .rejected _ => ⟨none, diagnostics, snapshots, .rejected⟩
  | .emitted emission =>
    let names := emission.artifacts.names
    ⟨some names.base, diagnostics, snapshots,
      if dryRun then .preview emission.receipt.path emission.unit.content
      else .written emission.receipt names.declarations⟩

/-- Scans and compiles, and hands the unit to the files or to a preview. -/
def generate [Monad m] (files : FileAccess m) (file : ManifestFile) (options : GenerateOptions) :
    m (Except CommandFailure GenerateReport) := do
  let files : FileAccess (StateT Nat m) := files.beside
  let snapshots := if options.visualize then some file.snapshotDirectory else none
  let pipeline : Pipeline (StateT Nat m) :=
    { plugins := snapshots.toList.map (Plugin.writeSnapshots files) }
  let sink := if options.dryRun then Sink.preview else Sink.directory files
  let emission := pipeline.emit .kotlin file.manifest.scan (file.target options.output) sink
  return match ← emission.run.run' 0 with
    | .error failure => .error (.generation failure)
    | .ok outcome => .ok (reportOf options.dryRun snapshots outcome)

end ManifestFile
end StyleFamily
