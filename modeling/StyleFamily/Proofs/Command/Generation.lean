import StyleFamily.Command.Generate
import StyleFamily.Proofs.Pipeline.Standard

/-!
# What a run of generation comes to

Without snapshots the count of them is passed along for nothing, and a run is decided by the
compiled scan: it reports a miss or a rejection without looking at any file, and otherwise asks one
sink for one unit.
-/
namespace StyleFamily

section
variable {m : Type → Type} [Monad m] [LawfulMonad m] {τ : Type}

/-- Replacing a file leaves a state that is passed along untouched. -/
theorem replace_beside (files : FileAccess m) (path : Path) (text : String) :
    (files.beside : FileAccess (StateT τ m)).replace path text =
      monadLift (files.replace path text) := by
  unfold FileAccess.replace
  cases path.parent? <;>
    simp [FileAccess.beside, apply_ite (monadLift (m := m) (n := StateT τ m))]

theorem accept_beside (files : FileAccess m) (unit : SourceUnit) (target : Target) :
    (Sink.directory (files.beside : FileAccess (StateT τ m))).accept unit target =
      monadLift ((Sink.directory files).accept unit target) := by
  have hread : ∀ path, (files.beside : FileAccess (StateT τ m)).read path =
      monadLift (files.read path) := fun _ => rfl
  simp only [Sink.directory, replace_beside, hread]
  simp [apply_ite (monadLift (m := m) (n := StateT τ m))]

/-- The sink of a run, when the count of snapshots is passed along and when it is not. -/
theorem accept_sink (files : FileAccess m) (dryRun : Bool) (unit : SourceUnit) (target : Target) :
    (if dryRun then Sink.preview else Sink.directory files.beside : Sink (StateT τ m)).accept
        unit target =
      monadLift ((if dryRun then Sink.preview else Sink.directory files).accept unit target) := by
  cases dryRun with
  | false => exact accept_beside files unit target
  | true => exact (monadLift_pure _).symm

/-- What is made of the sink's answer to the unit of a family. -/
def ManifestFile.reportOfAnswer (file : ManifestFile) (options : GenerateOptions)
    (artifacts : Artifacts) (diagnostics : List Diagnostic) :
    Except SinkError Receipt → Except CommandFailure GenerateReport
  | .error error => .error (.generation (.sink error))
  | .ok receipt => .ok (ManifestFile.reportOf options.dryRun none (.emitted
      ⟨Language.kotlin.unit artifacts (file.target options.output).package, receipt, artifacts,
        diagnostics⟩))

/-- A run of generation, by what the scan compiles to. -/
theorem generate_eq (files : FileAccess m) (file : ManifestFile) {options : GenerateOptions}
    (hv : options.visualize = false) :
    file.generate files options =
      match file.manifest.scan.compiled with
      | .error miss =>
        pure (.ok (ManifestFile.reportOf options.dryRun none (.noDeclaration miss)))
      | .ok context =>
        match context.accepted? with
        | none =>
          pure (.ok (ManifestFile.reportOf options.dryRun none (.rejected context.diagnostics)))
        | some artifacts =>
          let unit := Language.kotlin.unit artifacts (file.target options.output).package
          let sink := if options.dryRun then Sink.preview else Sink.directory files
          file.reportOfAnswer options artifacts context.diagnostics <$>
            sink.accept unit (file.target options.output) := by
  have hrun : ∀ {α β : Type} (f : α → β) (x : m α),
      (fun result : β × Nat => result.1) <$> ((f <$> monadLift x : StateT Nat m β).run 0) =
        f <$> x := by
    intro α β f x
    simp
  unfold ManifestFile.generate
  simp only [hv, Bool.false_eq_true, ↓reduceIte, Option.toList_none, List.map_nil, emit_standard]
  cases file.manifest.scan.compiled with
  | error miss => simp
  | ok context =>
    cases hc : context.accepted? with
    | none => simp [hc]
    | some artifacts =>
      simp only [hc, accept_sink, StateT.run'_eq, hrun]
      rw [bind_map_left, map_eq_pure_bind]
      congr 1
      funext answer
      cases answer <;> rfl

section
variable (files : FileAccess m) {file : ManifestFile} {options : GenerateOptions}
  (hv : options.visualize = false)
include hv

theorem generate_of_miss {miss : ScanMiss} (h : file.manifest.scan.compiled = .error miss) :
    file.generate files options =
      pure (.ok (ManifestFile.reportOf options.dryRun none (.noDeclaration miss))) := by
  rw [generate_eq files file hv, h]

variable {context : Context} (h : file.manifest.scan.compiled = .ok context)
include h

theorem generate_of_rejected (hc : context.accepted? = none) :
    file.generate files options =
      pure (.ok (ManifestFile.reportOf options.dryRun none (.rejected context.diagnostics))) := by
  rw [generate_eq files file hv, h]
  simp only [hc]

theorem generate_of_accepted {artifacts : Artifacts} (hc : context.accepted? = some artifacts) :
    file.generate files options =
      file.reportOfAnswer options artifacts context.diagnostics <$>
        (if options.dryRun then Sink.preview else Sink.directory files).accept
          (Language.kotlin.unit artifacts (file.target options.output).package)
          (file.target options.output) := by
  rw [generate_eq files file hv, h]
  simp only [hc]

end

end
end StyleFamily
