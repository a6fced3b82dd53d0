import StyleFamily.Command.Check
import StyleFamily.Command.Explain
import StyleFamily.Proofs.Command.Generation
import StyleFamily.Proofs.Files.DirectorySink
import StyleFamily.Proofs.Model.FreshBuilder

/-!
# The commands agree

Checking, explaining and generating compile the same scan, each in its own way of telling success
from failure. They agree on the verdict, on what they report of it and on where the unit goes, and
a run that writes leaves there what a dry run shows.
-/
namespace StyleFamily

theorem hasErrors_ofDiagnostics (diagnostics : List Diagnostic) :
    (DiagnosticSummary.ofDiagnostics diagnostics).hasErrors =
      diagnostics.any Diagnostic.isError := by
  rw [Bool.eq_iff_iff]
  simp [DiagnosticSummary.hasErrors, DiagnosticSummary.ofDiagnostics, Diagnostic.ofSeverity,
    Diagnostic.isError]

/-- A scan misses, or finds a schema. -/
theorem compiled_cases (scan : ScanOutcome) :
    (∃ miss, scan.compiled = .error miss) ∨
      ∃ schema notes, scan.compiled = .ok (Context.ofScan schema notes).compiled := by
  cases scan with
  | found schema notes => exact .inr ⟨schema, notes, rfl⟩
  | noHolder => exact .inl ⟨_, rfl⟩
  | underivableName declaration suffix => exact .inl ⟨_, rfl⟩

section
variable (schema : Schema) (notes : List ScanNote)

theorem hasErrors_compiled :
    (DiagnosticSummary.ofDiagnostics (Context.ofScan schema notes).compiled.diagnostics).hasErrors =
      !Lint.accepts schema := by
  rw [hasErrors_ofDiagnostics, compiled_ofScan]
  exact hasErrors_linted schema notes _ rfl

theorem schema_compiled : (Context.ofScan schema notes).compiled.schema = schema := by
  rw [compiled_ofScan]

end

namespace ManifestFile
variable (file : ManifestFile)

/-- The report of a check on a context. -/
def checked (context : Context) : CheckReport where
  path := file.path
  component := some context.schema.name
  miss := none
  propertyCount := context.schema.properties.size
  diagnostics := .ofDiagnostics context.diagnostics

theorem check_eq : file.check =
    match file.manifest.scan.compiled with
    | .error miss => .ok ⟨file.path, none, some miss, 0, {}⟩
    | .ok context => .ok (file.checked context) := by
  rw [check, compile_standard]
  cases file.manifest.scan.compiled <;> rfl

/-- The report of an explanation around its analysis. -/
def explained (analysis : Except NoAnalysis Analysis) : ExplainReport where
  path := file.path
  manifest := file.manifest
  outputDirectory := file.outputDirectory
  phases := ({} : Pipeline Id).phases.map fun phase => (phase.name, phase.description)
  lints := ({} : Pipeline Id).lints.map fun lint => (lint.name, lint.description)
  analysis

theorem explain_eq : file.explain =
    match file.manifest.scan.compiled with
    | .error miss => .ok (file.explained (.error (.miss miss)))
    | .ok context => (file.analyze context).map file.explained := by
  rw [explain, compile_standard]
  cases file.manifest.scan.compiled with
  | error miss => rfl
  | ok context =>
    change (file.analyze context >>= fun analysis => .ok (file.explained analysis)) =
      (file.analyze context).map file.explained
    cases file.analyze context <;> rfl

/-- The unit of a family and where a manifest puts it. -/
def unitPathOf (artifacts : Artifacts) : Path :=
  (file.target none).pathOf (Language.kotlin.unit artifacts (file.target none).package)

/-- The evaluator takes every family that the lints accept, so an analysis is never inconsistent. -/
theorem analyze_accepted {schema : Schema} {context : Context} (h : Lint.accepts schema = true)
    (hc : context.accepted? = some (assemble schema)) :
    ∃ analysis, file.analyze context = .ok (.ok analysis) ∧
      analysis.component = context.schema.name ∧
      analysis.declarations = (StyleNames.ofBase schema.name).declarations ∧
      analysis.unitPath = file.unitPathOf (assemble schema) := by
  have hb := ofArtifacts_assemble (accepts_iff_wellNamed.mp h)
  rw [analyze, hc]
  simp only [hb]
  exact ⟨_, rfl, rfl, rfl, rfl⟩

theorem analyze_rejected {context : Context} (hc : context.accepted? = none) :
    ∃ errors, file.analyze context = .ok (.error (.rejected errors)) := by
  rw [analyze, hc]
  exact ⟨_, rfl⟩

/-- The report of a dry run on a family: the unit, under the path it would be written to. -/
def previewed (artifacts : Artifacts) (diagnostics : List Diagnostic) : GenerateReport where
  component := some artifacts.names.base
  diagnostics := .ofDiagnostics diagnostics
  snapshots := none
  result := .preview (file.unitPathOf artifacts)
    (Language.kotlin.unit artifacts (file.target none).package).content

theorem reportOfAnswer_preview {m : Type → Type} [Monad m] [LawfulMonad m] (artifacts : Artifacts)
    (diagnostics : List Diagnostic) :
    file.reportOfAnswer { dryRun := true } artifacts diagnostics <$>
        (Sink.preview : Sink m).accept
          (Language.kotlin.unit artifacts (file.target none).package) (file.target none) =
      pure (.ok (file.previewed artifacts diagnostics)) := by
  simp only [Sink.preview, map_pure]
  rfl

/-- The reports of the three commands on one file say the same. -/
structure Agreement (check : CheckReport) (explain : ExplainReport) (preview : GenerateReport) :
    Prop where
  analyzed : check.isValid = true ↔ ∃ analysis, explain.analysis = .ok analysis
  succeeded : check.isValid = true ↔ preview.isSuccess = true
  diagnostics : preview.diagnostics = check.diagnostics
  miss_generated : ∀ miss, check.miss = some miss ↔ preview.result = .notGenerated miss
  miss_analyzed : ∀ miss, check.miss = some miss ↔ explain.analysis = .error (.miss miss)
  miss_text : ∀ miss reason, check.miss = some miss → explain.analysis = .error reason →
    reason.text = miss.text
  generated : ∀ analysis, explain.analysis = .ok analysis →
    check.component = some analysis.component ∧ preview.component = some analysis.component ∧
      ∃ content, preview.result = .preview analysis.unitPath content

/-- A run that wrote says what the dry run says, and left the content that was shown. -/
structure Carries (explain : ExplainReport) (preview written : GenerateReport)
    (view : Path → Option String) : Prop where
  diagnostics : written.diagnostics = preview.diagnostics
  component : written.component = preview.component
  succeeded : written.isSuccess = preview.isSuccess
  shown : ∀ path content, preview.result = .preview path content →
    ∃ analysis result, explain.analysis = .ok analysis ∧
      written.result = .written ⟨path, result⟩ analysis.declarations ∧ view path = some content

/-- How a run that writes ends: it carries out what the dry run shows, or its sink fails. -/
def EndsAs {σ : Type} (explain : ExplainReport) (preview : GenerateReport)
    (view : σ → Path → Option String) : Except CommandFailure GenerateReport × σ → Prop
  | (.ok written, last) => Carries explain preview written (view last)
  | (.error failure, _) => ∃ error, failure = .generation (.sink error)

/-- The three commands succeed with the reports, and the reports agree. A run that writes
does so whatever files it is given. -/
structure Consistent (check : CheckReport) (explain : ExplainReport) (preview : GenerateReport) :
    Prop where
  checked : file.check = .ok check
  explained : file.explain = .ok explain
  previewed : ∀ {m : Type → Type} [Monad m] [LawfulMonad m] (files : FileAccess m),
    file.generate files { dryRun := true } = pure (.ok preview)
  agreement : Agreement check explain preview
  carried : ∀ {σ : Type} (files : FileAccess (StateM σ)) (view : σ → Path → Option String),
    files.Keeps view → ∀ s, EndsAs explain preview view ((file.generate files {}).run s)

section
variable {file}

theorem consistent_of_miss {miss : ScanMiss} (h : file.manifest.scan.compiled = .error miss) :
    file.Consistent ⟨file.path, none, some miss, 0, {}⟩ (file.explained (.error (.miss miss)))
      (reportOf true none (.noDeclaration miss)) where
  checked := by rw [check_eq, h]
  explained := by rw [explain_eq, h]
  previewed := by
    intro m _ _ files
    exact generate_of_miss files rfl h
  agreement := by
    have hnothing : DiagnosticSummary.ofDiagnostics [] = {} := rfl
    have htext : ∀ reason : NoAnalysis, .miss miss = reason → reason.text = miss.text := by
      rintro _ rfl
      rfl
    constructor <;>
      simp [CheckReport.isValid, ManifestFile.explained, reportOf, GenerateReport.isSuccess,
        Outcome.diagnostics, hnothing, htext]
  carried := by
    intro σ files view _ s
    rw [generate_of_miss files rfl h]
    exact ⟨rfl, rfl, rfl, by simp [reportOf]⟩

variable {schema : Schema} {notes : List ScanNote}
  (h : file.manifest.scan.compiled = .ok (Context.ofScan schema notes).compiled)
include h

theorem consistent_of_rejected (ha : Lint.accepts schema = false) :
    ∃ check explain preview, file.Consistent check explain preview := by
  have hc : (Context.ofScan schema notes).compiled.accepted? = none := by
    rw [compiled_accepted, if_neg (by simp [ha])]
  obtain ⟨errors, hanalyze⟩ := file.analyze_rejected hc
  have herrors := hasErrors_compiled schema notes
  rw [ha] at herrors
  refine ⟨file.checked (Context.ofScan schema notes).compiled,
    file.explained (.error (.rejected errors)),
    reportOf true none (.rejected (Context.ofScan schema notes).compiled.diagnostics),
    ?_, ?_, ?_, ?_, ?_⟩
  · rw [check_eq, h]
  · rw [explain_eq, h]
    simp only [hanalyze]
    rfl
  · intro m _ _ files
    exact generate_of_rejected files rfl h hc
  · constructor <;>
      simp [CheckReport.isValid, checked, ManifestFile.explained, reportOf,
        GenerateReport.isSuccess, Outcome.diagnostics, herrors]
  · intro σ files view _ s
    rw [generate_of_rejected files rfl h hc]
    exact ⟨rfl, rfl, rfl, by simp [reportOf]⟩

theorem consistent_of_accepted (ha : Lint.accepts schema = true) :
    ∃ check explain preview, file.Consistent check explain preview := by
  have hc : (Context.ofScan schema notes).compiled.accepted? = some (assemble schema) := by
    rw [compiled_accepted, if_pos ha]
  obtain ⟨analysis, hanalyze, hcomponent, hdeclarations, hpath⟩ := file.analyze_accepted ha hc
  have herrors := hasErrors_compiled schema notes
  rw [ha] at herrors
  have hbase : (assemble schema).names.base = schema.name := rfl
  rw [schema_compiled] at hcomponent
  refine ⟨file.checked (Context.ofScan schema notes).compiled, file.explained (.ok analysis),
    file.previewed (assemble schema) (Context.ofScan schema notes).compiled.diagnostics,
    ?_, ?_, ?_, ?_, ?_⟩
  · rw [check_eq, h]
  · rw [explain_eq, h]
    simp only [hanalyze]
    rfl
  · intro m _ _ files
    rw [generate_of_accepted files rfl h hc]
    exact file.reportOfAnswer_preview _ _
  · constructor <;>
      simp [CheckReport.isValid, checked, ManifestFile.explained, previewed,
        GenerateReport.isSuccess, herrors, schema_compiled, hcomponent, hpath, hbase]
  · intro σ files view hk s
    rw [generate_of_accepted files rfl h hc, if_neg Bool.false_ne_true, StateT.run_map]
    rcases haccept : ((Sink.directory files).accept
      (Language.kotlin.unit (assemble schema) (file.target none).package)
      (file.target none)).run s with ⟨error | receipt, last⟩
    · exact ⟨error, rfl⟩
    · obtain ⟨hplace, hcontent⟩ := accept_keeps hk haccept
      refine ⟨rfl, rfl, rfl, ?_⟩
      intro path content hshown
      obtain ⟨rfl, rfl⟩ := GenerationResult.preview.inj hshown
      obtain ⟨place, result⟩ := receipt
      obtain rfl : place = file.unitPathOf (assemble schema) := hplace
      exact ⟨analysis, result, rfl, by rw [hdeclarations]; rfl, hcontent⟩

end

/-- For every manifest file the three commands come to consistent reports. -/
theorem commands_agree : ∃ check explain preview, file.Consistent check explain preview := by
  rcases compiled_cases file.manifest.scan with ⟨miss, hmiss⟩ | ⟨schema, notes, hfound⟩
  · exact ⟨_, _, _, consistent_of_miss hmiss⟩
  · cases ha : Lint.accepts schema with
    | false => exact consistent_of_rejected hfound ha
    | true => exact consistent_of_accepted hfound ha

/-- A card with a title and a color, in a manifest that passes validation. -/
def cardFile : ManifestFile where
  path := ⟨"card.toml"⟩
  content := ""
  manifest :=
    { output := { package := "ui.card", directory := ⟨"out"⟩ }
      declarations :=
        [{ name := "CardProperties"
           supertypes := ["PropertyOwner"]
           parameters := [⟨"title", "TypographyProperty"⟩, ⟨"content", "ColorProperty"⟩] }] }

theorem card_commands_agree :
    cardFile.manifest.validate [] = .ok () ∧
      ∃ check explain preview, cardFile.Consistent check explain preview ∧
        check.isValid = true ∧ check.component = some "Card" ∧
        ∃ written last path content,
          (cardFile.generate Tree.access {}).run {} = (.ok written, last) ∧
          preview.result = .preview path content ∧ last.read path = some content := by
  have hvalid : cardFile.manifest.validate [] = .ok () := by decide +kernel
  have hcheck : cardFile.check.toOption.any (·.isValid) = true := by decide +kernel
  have hcomponent : cardFile.check.toOption.bind (·.component) = some "Card" := by decide +kernel
  have hrun : ((cardFile.generate Tree.access {}).run {}).1.isOk = true := by decide +kernel
  obtain ⟨check, explain, preview, h⟩ := cardFile.commands_agree
  rw [h.checked] at hcheck hcomponent
  have hcarried := h.carried Tree.access Tree.read Tree.access_keeps {}
  refine ⟨hvalid, check, explain, preview, h, hcheck, hcomponent, ?_⟩
  rcases he : (cardFile.generate Tree.access {}).run {} with ⟨failure | written, last⟩
  · rw [he] at hrun
    exact absurd hrun (by simp [Except.isOk, Except.toBool])
  · rw [he] at hcarried
    obtain ⟨analysis, hanalysis⟩ := h.agreement.analyzed.mp hcheck
    obtain ⟨_, _, content, hpreview⟩ := h.agreement.generated analysis hanalysis
    obtain ⟨_, _, _, _, hcontent⟩ := hcarried.shown _ _ hpreview
    exact ⟨written, last, _, content, rfl, hpreview, hcontent⟩

end ManifestFile
end StyleFamily
