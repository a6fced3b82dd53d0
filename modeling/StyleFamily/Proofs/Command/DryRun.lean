import StyleFamily.Proofs.Command.WatchedRun
import StyleFamily.Proofs.Files.DirectorySink
import StyleFamily.Proofs.Kotlin.LineHeads
import StyleFamily.Proofs.Manifest.Acceptance

/-!
# What a dry run prints

A dry run prints the unit line by line between two dividers. Main statement: read back from there,
with a line feed after every line, it is the content that a run with the same options writes, and
the first divider names the path that this run writes to.
-/
namespace StyleFamily

namespace Report

/-- The lines after the divider with one label, up to the next divider with another one. -/
def between (opening closing : String) (lines : List Line) : List Line :=
  ((lines.dropWhile (· ∉ divider opening)).drop 1).takeWhile (· ∉ divider closing)

theorem between_eq {opening closing : String} {before body after : List Line}
    (hbefore : ∀ line ∈ before, line ∉ divider opening)
    (hbody : ∀ line ∈ body, line ∉ divider closing) :
    between opening closing (before ++ divider opening ++ body ++ divider closing ++ after) =
      body := by
  have hopening : (before ++ divider opening ++ body ++ divider closing ++ after).dropWhile
      (· ∉ divider opening) = divider opening ++ (body ++ (divider closing ++ after)) := by
    simp only [List.append_assoc]
    rw [List.dropWhile_append_of_pos (by simpa using hbefore)]
    simp [divider, plain]
  have hclosing : (divider closing ++ after).takeWhile (· ∉ divider closing) = [] := by
    simp [divider, plain]
  rw [between, hopening]
  show (body ++ (divider closing ++ after)).takeWhile (· ∉ divider closing) = body
  rw [List.takeWhile_append_of_pos (by simpa using hbody), hclosing, List.append_nil]

/-- A divider begins with a sign beyond ASCII. -/
theorem not_mem_divider {line : Line}
    (h : line.stream = .output → Text.BeginsPlain line.text) (label : String) :
    line ∉ divider label := by
  intro hm
  obtain rfl : line = ⟨.output, "── " ++ label ++ " ──"⟩ := List.mem_singleton.mp hm
  have hplain := beginsPlain_iff.mp (h rfl) '─' (by simp)
  exact absurd hplain (by decide)

/-- Lines that are all of a text show that text. -/
theorem shown_preformatted {text : String}
    (h : text.toList = (Text.lines text).flatMap Fragment.ended) :
    shown .output (preformatted text) = text := by
  have hall : (preformatted text).filter (·.stream = .output) = preformatted text := by
    simp [preformatted]
  rw [shown, hall, ← String.toList_inj, h]
  simp only [preformatted, String.toList_join, List.map_map, List.flatMap_map, Function.comp_def,
    String.toList_append]
  rfl

end Report

theorem exists_finding {schema : Schema} {d : Diagnostic}
    (h : d ∈ Lint.checkAll Lint.standard schema) : ∃ finding : Finding, finding.diagnostic = d := by
  obtain ⟨lint, hl, hd⟩ := List.mem_flatMap.mp h
  simp only [Lint.standard, List.mem_cons, List.not_mem_nil, or_false] at hl
  rcases hl with rfl | rfl | rfl | rfl | rfl | rfl
  all_goals
    obtain ⟨finding, _, he⟩ := List.mem_map.mp hd
    exact ⟨finding, he⟩

/-- Beside errors and warnings, a compilation only remarks on empty groups. -/
theorem exists_emptyGroup {schema : Schema} {notes : List ScanNote} {d : Diagnostic}
    (h : d ∈ (Context.ofScan schema notes).compiled.diagnostics) (hi : d.severity = .info) :
    ∃ category, (Finding.emptyGroup category).diagnostic = d := by
  rw [compiled_ofScan] at h
  rcases List.mem_append.mp h with hn | hl
  · obtain ⟨note, _, rfl⟩ := List.mem_map.mp hn
    exact absurd hi (by simp [ScanNote.diagnostic])
  · obtain ⟨finding, rfl⟩ := exists_finding hl
    have hs : finding.severity = .info := hi
    cases finding with
    | emptyGroup category => exact ⟨category, rfl⟩
    | _ => simp [Finding.severity] at hs

theorem isAscii_remark (category : Category) : Text.IsAscii
    ("info: " ++ DiagnosticSummary.messageOf (Finding.emptyGroup category).diagnostic) := by
  have hcategory : Text.IsAscii category.text := by cases category <;> decide
  have hgroup : Text.IsAscii (if category = .color then "colors" else "dimensions") := by
    split <;> decide
  have hmessage : Text.IsAscii (Finding.emptyGroup category).message :=
    isAscii_append.mpr ⟨isAscii_append.mpr ⟨isAscii_append.mpr ⟨isAscii_append.mpr
      ⟨by decide, hcategory⟩, by decide⟩, hgroup⟩, by decide⟩
  have hlocation : Text.IsAscii category.location := isAscii_append.mpr ⟨hcategory, by decide⟩
  exact isAscii_append.mpr ⟨by decide,
    isAscii_append.mpr ⟨isAscii_append.mpr ⟨hmessage, by decide⟩, hlocation⟩⟩

/-- None of the diagnostics of a compilation can be taken for a divider. -/
theorem beginsPlain_diagnostics (schema : Schema) (notes : List ScanNote) :
    ∀ line ∈ (DiagnosticSummary.ofDiagnostics
        (Context.ofScan schema notes).compiled.diagnostics).lines,
      line.stream = .output → Text.BeginsPlain line.text := by
  intro line hl hs
  simp only [DiagnosticSummary.lines, List.mem_append, List.mem_flatMap] at hl
  rcases hl with (⟨message, _, hm⟩ | ⟨message, _, hm⟩) | ⟨message, hinfo, hm⟩
  · obtain rfl := List.mem_singleton.mp hm
    cases hs
  · obtain rfl := List.mem_singleton.mp hm
    cases hs
  · obtain ⟨d, hd, rfl⟩ := List.mem_map.mp hinfo
    obtain ⟨hd, hi⟩ := List.mem_filter.mp hd
    obtain ⟨category, rfl⟩ := exists_emptyGroup hd (by simpa using hi)
    obtain ⟨text, ht, rfl⟩ := List.mem_map.mp hm
    exact beginsPlain_of_isAscii (isAscii_remark category) text ht

section
variable {σ : Type} {files : FileAccess (StateM σ)} {file : ManifestFile}
  {options : GenerateOptions} {s last : σ} {answer : Except CommandFailure GenerateReport}

/-- A run fails over its snapshots or ends as the emission of its unit does. -/
theorem run_generate (h : (file.generate files options).run s = (answer, last)) :
    (options.visualize = true ∧ ∃ failure, answer = .error (.generation (.pipeline failure))) ∨
      ∃ next emitted, (file.emission files options).run.run next = (emitted, last) ∧
        answer = file.reported options emitted := by
  obtain ⟨watch, hwatch, he⟩ := generate_watched files file options
  rw [he] at h
  obtain ⟨watched, next, hrun, h⟩ := exists_run_of_bind h
  rcases watched with failure | _
  · obtain ⟨rfl, rfl⟩ := Prod.mk.inj h
    refine .inl ⟨?_, failure, rfl⟩
    by_contra hv
    rw [hwatch (by simpa using hv)] at hrun
    exact absurd (Prod.mk.inj hrun).1 (by simp)
  · obtain ⟨rfl, rfl⟩ := Prod.mk.inj h
    exact .inr ⟨next, _, rfl, rfl⟩

/-- The unit of a component that the scan of a manifest found. -/
def ManifestFile.unitOf (file : ManifestFile) (schema : Schema) : SourceUnit :=
  Language.kotlin.unit (assemble schema) file.manifest.output.package

theorem compiled_of_found (schema : Schema) (notes : List ScanNote) :
    (ScanOutcome.found schema notes).compiled = .ok (Context.ofScan schema notes).compiled := rfl

/-- The emission asks the sink for the unit of an accepted component. -/
theorem emission_accepted {schema : Schema} {notes : List ScanNote}
    (hs : file.manifest.scan = .found schema notes) (ha : Lint.accepts schema = true) :
    (file.emission files options).run =
      (fun answer => (answer.mapError .sink).map fun receipt => .emitted ⟨file.unitOf schema,
          receipt, assemble schema, (Context.ofScan schema notes).compiled.diagnostics⟩) <$>
        (if options.dryRun then Sink.preview else Sink.directory files).accept
          (file.unitOf schema) (file.target options.output) := by
  have hc : (Context.ofScan schema notes).compiled.accepted? = some (assemble schema) := by
    rw [compiled_accepted, if_pos ha]
  rw [ManifestFile.emission, emit_standard, hs, compiled_of_found]
  simp only [hc]
  rfl

/-- Only an accepted component is reported as a success. -/
theorem found_of_success {next : σ} {emitted : Except EmissionFailure Outcome}
    {report : GenerateReport} (h : (file.emission files options).run.run next = (emitted, last))
    (hr : file.reported options emitted = .ok report) (hsuccess : report.isSuccess = true) :
    ∃ schema notes, file.manifest.scan = .found schema notes ∧ Lint.accepts schema = true := by
  have hreport : ∀ outcome, (file.emission files options).run = pure (.ok outcome) →
      file.reported options (.ok outcome) = .ok report := by
    intro outcome he
    rw [he] at h
    obtain ⟨rfl, _⟩ := Prod.mk.inj h
    exact hr
  have hemit := emit_standard (m := StateM σ) .kotlin file.manifest.scan
    (file.target options.output)
    (if options.dryRun then Sink.preview else Sink.directory files)
  rw [← ManifestFile.emission] at hemit
  have hmiss : ∀ miss, file.manifest.scan.compiled ≠ .error miss := by
    intro miss hm
    rw [hm] at hemit
    obtain rfl := Except.ok.inj (hreport _ hemit)
    exact absurd hsuccess Bool.false_ne_true
  cases hscan : file.manifest.scan with
  | noHolder => exact absurd (by rw [hscan]; rfl) (hmiss .noHolder)
  | underivableName declaration suffix =>
    exact absurd (by rw [hscan]; rfl) (hmiss (.underivableName declaration suffix))
  | found schema notes =>
    refine ⟨schema, notes, rfl, ?_⟩
    by_contra hl
    have hc : (Context.ofScan schema notes).compiled.accepted? = none := by
      rw [compiled_accepted, if_neg hl]
    rw [hscan, compiled_of_found] at hemit
    simp only [hc] at hemit
    obtain rfl := Except.ok.inj (hreport _ hemit)
    exact absurd hsuccess Bool.false_ne_true

end

namespace ManifestFile

/-- How a run that writes ends: the unit stands at its path, as reported, or that path could not be
written, or there were snapshots to write and they could not be. -/
structure LeavesUnit {σ : Type} (file : ManifestFile) (options : GenerateOptions)
    (unit : SourceUnit) (files : FileAccess (StateM σ)) (view : σ → Path → Option String) (s : σ) :
    Prop where
  reported : ∀ report last, (file.generate files options).run s = (.ok report, last) →
    ∃ result declarations,
      report.result = .written ⟨(file.target options.output).pathOf unit, result⟩ declarations ∧
        view last ((file.target options.output).pathOf unit) = some unit.content
  failed : ∀ failure last, (file.generate files options).run s = (.error failure, last) →
    failure = .generation (.sink (.unwritable ((file.target options.output).pathOf unit))) ∨
      options.visualize = true ∧ ∃ cause, failure = .generation (.pipeline cause)

section
variable {σ : Type} {files : FileAccess (StateM σ)} {file : ManifestFile}
  {options : GenerateOptions} {schema : Schema} {notes : List ScanNote}
  (hs : file.manifest.scan = .found schema notes) (ha : Lint.accepts schema = true)
include hs ha

/-- A run that writes ends as the directory does that it hands the unit to. -/
theorem run_generate_written (hw : options.dryRun = false) {s last : σ}
    {answer : Except CommandFailure GenerateReport}
    (h : (file.generate files options).run s = (answer, last)) :
    (options.visualize = true ∧ ∃ failure, answer = .error (.generation (.pipeline failure))) ∨
      ∃ next taken, ((Sink.directory files).accept (file.unitOf schema)
          (file.target options.output)).run next = (taken, last) ∧
        answer = file.reported options ((taken.mapError .sink).map fun receipt =>
          .emitted ⟨file.unitOf schema, receipt, assemble schema,
            (Context.ofScan schema notes).compiled.diagnostics⟩) := by
  refine (run_generate h).imp_right ?_
  rintro ⟨next, emitted, hemit, rfl⟩
  rw [emission_accepted hs ha, StateT.run_map, hw, if_neg Bool.false_ne_true] at hemit
  obtain ⟨rfl, rfl⟩ := Prod.mk.inj hemit
  exact ⟨next, _, rfl, rfl⟩

/-- A run that writes leaves the unit of the component that was found. -/
theorem generate_leaves {view : σ → Path → Option String} (hk : files.Keeps view)
    (hw : options.dryRun = false) (s : σ) :
    file.LeavesUnit options (file.unitOf schema) files view s where
  reported := by
    intro report last h
    rcases run_generate_written hs ha hw h with ⟨_, failure, he⟩ | ⟨next, taken, haccept, he⟩
    · cases he
    · rcases taken with error | ⟨place, result⟩
      · cases he
      · obtain ⟨hplace, hcontent⟩ := accept_keeps hk haccept
        obtain rfl : place = _ := hplace
        obtain rfl := Except.ok.inj he
        refine ⟨result, (assemble schema).names.declarations, ?_, hcontent⟩
        show (if options.dryRun then GenerationResult.preview _ _ else .written _ _) = _
        rw [hw, if_neg Bool.false_ne_true]
  failed := by
    intro failure last h
    rcases run_generate_written hs ha hw h with ⟨hv, cause, he⟩ | ⟨next, taken, haccept, he⟩
    · obtain rfl := Except.error.inj he
      exact .inr ⟨hv, cause, rfl⟩
    · rcases taken with error | receipt
      · obtain rfl := Except.error.inj he
        exact .inl (congrArg (CommandFailure.generation <| .sink ·) (accept_error haccept))
      · cases he

/-- The report of a dry run on a component that was found. -/
theorem generate_previews (hd : options.dryRun = true) {s last : σ} {report : GenerateReport}
    (h : (file.generate files options).run s = (.ok report, last)) :
    report.diagnostics = .ofDiagnostics (Context.ofScan schema notes).compiled.diagnostics ∧
      report.result = .preview ((file.target options.output).pathOf (file.unitOf schema))
        (file.unitOf schema).content := by
  rcases run_generate h with ⟨_, failure, he⟩ | ⟨next, emitted, hemit, he⟩
  · cases he
  · rw [emission_accepted hs ha, StateT.run_map, hd] at hemit
    obtain ⟨rfl, rfl⟩ := Prod.mk.inj hemit
    obtain rfl := Except.ok.inj he
    refine ⟨rfl, ?_⟩
    show (if options.dryRun then GenerationResult.preview _ _ else .written _ _) = _
    rw [hd, if_pos rfl]
    rfl

end

/-- A dry run of an accepted manifest that succeeds prints the lines of the unit between the divider
that names a path and the divider of the summary, and nothing else there: with a line feed after
each, they are the content of the unit. A run with the same options that writes leaves this content
at this path, whatever files it is given and whatever stands there before, unless it cannot write
the path or a snapshot. -/
theorem dry_run_prints_file {file : ManifestFile} {source : List Char}
    (hvalid : file.manifest.validate source = .ok ()) {options : GenerateOptions}
    (hd : options.dryRun = true) {σ : Type} {files : FileAccess (StateM σ)} {s last : σ}
    {report : GenerateReport} (hrun : (file.generate files options).run s = (.ok report, last))
    (hsuccess : report.isSuccess = true) :
    ∃ schema notes, file.manifest.scan = .found schema notes ∧
      let unit := file.unitOf schema
      let path := (file.target options.output).pathOf unit
      let printed := Report.between path.text "Summary" report.lines
      report.result = .preview path unit.content ∧
      (∃ before after, report.lines = before ++ Report.divider path.text ++ printed ++
        Report.divider "Summary" ++ after) ∧
      (∀ line ∈ printed, line.stream = .output) ∧
      Report.shown .output printed = unit.content ∧
      ∀ {τ : Type} (disk : FileAccess (StateM τ)) (view : τ → Path → Option String),
        disk.Keeps view → ∀ start,
          file.LeavesUnit { options with dryRun := false } unit disk view start := by
  obtain ⟨schema, notes, hs, ha⟩ : ∃ schema notes, file.manifest.scan = .found schema notes ∧
      Lint.accepts schema = true := by
    rcases run_generate hrun with ⟨_, failure, he⟩ | ⟨next, emitted, hemit, he⟩
    · cases he
    · exact found_of_success hemit he.symm hsuccess
  have hw := accepts_iff_wellNamed.mp ha
  have hp := (Manifest.validate_eq_ok.mp hvalid).1
  obtain ⟨hdiagnostics, hresult⟩ := generate_previews hs ha hd hrun
  refine ⟨schema, notes, hs, ?_⟩
  intro unit path printed
  have hwhole : unit.content.toList = (Text.lines unit.content).flatMap Fragment.ended :=
    (Kotlin.sections_unitText hw hp).1.whole
  have hbefore : ∀ line ∈ report.diagnostics.lines, line ∉ Report.divider path.text := by
    rw [hdiagnostics]
    exact fun line hl => Report.not_mem_divider (beginsPlain_diagnostics schema notes line hl) _
  have hbody : ∀ line ∈ Report.preformatted unit.content, line ∉ Report.divider "Summary" := by
    refine List.forall_mem_map.mpr fun text ht => Report.not_mem_divider (fun _ => ?_) _
    exact Kotlin.beginsPlain_unitText hw hp text ht
  have hlines : ∃ after, report.lines = report.diagnostics.lines ++ Report.divider path.text ++
      Report.preformatted unit.content ++ Report.divider "Summary" ++ after := by
    rw [GenerateReport.lines, GenerateReport.resultLines, hresult]
    refine ⟨Report.preformatted "1 file would be generated" ++ report.snapshots.toList.flatMap
      fun directory => Report.keyValue "Pipeline snapshots" directory.text, ?_⟩
    simp only [List.append_assoc]
    rfl
  obtain ⟨after, hlines⟩ := hlines
  have hprinted : printed = Report.preformatted unit.content := by
    show Report.between path.text "Summary" report.lines = _
    rw [hlines]
    exact Report.between_eq hbefore hbody
  rw [hprinted]
  exact ⟨hresult, ⟨_, after, hlines⟩, List.forall_mem_map.mpr fun _ _ => rfl,
    Report.shown_preformatted hwhole, fun _ _ hk start => generate_leaves hs ha hk rfl start⟩

/-- A card whose component has no dimensions, so that a remark is printed before the unit. -/
def noteFile : ManifestFile where
  path := ⟨"styles/note.toml"⟩
  content := ""
  manifest :=
    { output := { package := "ui.note", directory := ⟨"out"⟩ }
      declarations :=
        [{ name := "NoteProperties"
           supertypes := ["PropertyOwner"]
           parameters := [⟨"title", "TypographyProperty"⟩] }] }

theorem note_dry_run_prints_file :
    noteFile.manifest.validate [] = .ok () ∧
      ∃ report written start last, (noteFile.generate Tree.access { dryRun := true }).run {} =
          (.ok report, start) ∧
        report.isSuccess = true ∧ report.diagnostics.lines ≠ [] ∧
        (noteFile.generate Tree.access {}).run {} = (.ok written, last) ∧
        ∃ path result declarations, written.result = .written ⟨path, result⟩ declarations ∧
          last.read path = some (Report.shown .output
            (Report.between path.text "Summary" report.lines)) := by
  have hvalid : noteFile.manifest.validate [] = .ok () := by decide +kernel
  have hpreview : ((noteFile.generate Tree.access { dryRun := true }).run {}).1.toOption.any
      (fun report => report.isSuccess && !report.diagnostics.lines.isEmpty) = true := by
    decide +kernel
  have hwrites : ((noteFile.generate Tree.access {}).run {}).1.isOk = true := by decide +kernel
  rcases hrun : (noteFile.generate Tree.access { dryRun := true }).run {} with
    ⟨failure | report, start⟩
  · rw [hrun] at hpreview
    exact absurd hpreview Bool.false_ne_true
  rcases hreal : (noteFile.generate Tree.access {}).run {} with ⟨failure | written, last⟩
  · rw [hreal] at hwrites
    exact absurd hwrites Bool.false_ne_true
  rw [hrun] at hpreview
  obtain ⟨hsuccess, hremark⟩ := (Bool.and_eq_true _ _).mp hpreview
  obtain ⟨schema, notes, _, _, _, _, hshown, hleaves⟩ :=
    dry_run_prints_file hvalid rfl hrun hsuccess
  obtain ⟨result, declarations, hresult, hcontent⟩ :=
    (hleaves Tree.access Tree.read Tree.access_keeps {}).reported written last hreal
  exact ⟨hvalid, report, written, start, last, rfl, hsuccess, by simpa using hremark, rfl, _,
    result, declarations, hresult, hcontent.trans (congrArg some hshown.symm)⟩

end ManifestFile
end StyleFamily
