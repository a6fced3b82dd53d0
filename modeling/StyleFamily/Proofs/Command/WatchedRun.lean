import StyleFamily.Proofs.Command.Generation

/-!
# Generation under watch

Snapshots take no part in what is generated. They are written while the scan is compiled, and where
all of them could be written the run goes on as it does without them: so every run of generation
first writes its snapshots, if it writes any, and then emits the unit of the standard pipeline.
-/
namespace StyleFamily

section
variable {m : Type → Type} [Monad m] [LawfulMonad m]

section
variable (record : Snapshot → ExceptT PipelineFailure m Unit)

/-- The snapshots of a compilation: one after the lints, one after the assembly. -/
def Context.watched (context : Context) : ExceptT PipelineFailure m Unit := do
  let linted := context.report (Lint.checkAll Lint.standard context.schema)
  record (.capture "validate" linted)
  if linted.hasErrors then pure () else record (.capture "assemble" context.compiled)

/-- The snapshots of what is compiled from a scan. -/
def ScanOutcome.watched (scan : ScanOutcome) : ExceptT PipelineFailure m Unit :=
  match scan.found? with
  | .error _ => pure ()
  | .ok (schema, notes) => (Context.ofScan schema notes).watched record

/-- The pipeline that hands on snapshots and has nothing else added to it. -/
def Pipeline.recording : Pipeline m := { plugins := [.snapshots record] }

theorem run_recording (context : Context) :
    (Pipeline.recording record).run context =
      context.watched record >>= fun _ => pure context.compiled := by
  simp only [Pipeline.recording, Pipeline.run, Pipeline.phases, List.append_nil,
    Pipeline.runPhases, Pipeline.runPhase, Phase.validate, Phase.assemble, Plugin.snapshots,
    List.foldlM_cons, List.foldlM_nil, pure_bind, bind_pure, bind_assoc, Context.watched]
  congr 1
  funext _
  have hschema : (context.report (Lint.checkAll Lint.standard context.schema)).schema =
      context.schema := rfl
  cases he : (context.report (Lint.checkAll Lint.standard context.schema)).hasErrors with
  | true => simp [Context.compiled, he]
  | false => simp [Context.compiled, he, hschema]

theorem compile_recording (scan : ScanOutcome) :
    (Pipeline.recording record).compile scan =
      scan.watched record >>= fun _ => ({} : Pipeline m).compile scan := by
  rw [compile_standard]
  unfold Pipeline.compile ScanOutcome.watched ScanOutcome.compiled
  cases scan.found? with
  | error miss =>
    rw [pure_bind]
    rfl
  | ok found =>
    simp only [run_recording, map_bind, map_pure]
    rfl

theorem adapt_bind {ε ε' α β : Type} (f : ε → ε') (first : ExceptT ε m α)
    (rest : α → ExceptT ε m β) :
    (first >>= rest).adapt f = first.adapt f >>= fun a => (rest a).adapt f := by
  apply ExceptT.ext
  show Except.mapError f <$> (first >>= rest).run =
    ((ExceptT.mk (Except.mapError f <$> first.run)) >>= fun a => (rest a).adapt f).run
  rw [ExceptT.run_bind, ExceptT.run_bind, map_bind, ExceptT.run_mk, bind_map_left]
  congr 1
  funext answer
  cases answer with
  | error e => simp [Except.mapError]
  | ok a => rfl

/-- Snapshots come before an emission that knows nothing of them. -/
theorem emit_recording (language : Language) (scan : ScanOutcome) (target : Target)
    (sink : Sink m) :
    (Pipeline.recording record).emit language scan target sink =
      (scan.watched record).adapt EmissionFailure.pipeline >>= fun _ =>
        ({} : Pipeline m).emit language scan target sink := by
  rw [Pipeline.emit, compile_recording, adapt_bind, bind_assoc]
  rfl

end

/-- A standard emission leaves the count of snapshots as it finds it. -/
theorem emit_beside {τ : Type} (files : FileAccess m) (dryRun : Bool) (language : Language)
    (scan : ScanOutcome) (target : Target) :
    (({} : Pipeline (StateT τ m)).emit language scan target
        (if dryRun then Sink.preview else Sink.directory files.beside)).run =
      monadLift (({} : Pipeline m).emit language scan target
        (if dryRun then Sink.preview else Sink.directory files)).run := by
  rw [emit_standard, emit_standard]
  cases scan.compiled with
  | error miss => simp
  | ok context =>
    cases hc : context.accepted? with
    | none => simp [hc]
    | some artifacts => simp [hc, accept_sink]

/-- The report on an emission; where snapshots were asked for, it says where they went. -/
def ManifestFile.reported (file : ManifestFile) (options : GenerateOptions) :
    Except EmissionFailure Outcome → Except CommandFailure GenerateReport
  | .error failure => .error (.generation failure)
  | .ok outcome => .ok (reportOf options.dryRun
      (if options.visualize then some file.snapshotDirectory else none) outcome)

/-- The emission of the unit of a manifest by the standard pipeline. -/
def ManifestFile.emission (files : FileAccess m) (file : ManifestFile) (options : GenerateOptions) :
    ExceptT EmissionFailure m Outcome :=
  ({} : Pipeline m).emit .kotlin file.manifest.scan (file.target options.output)
    (if options.dryRun then Sink.preview else Sink.directory files)

/-- A run reports on the emission of its pipeline, with the count of snapshots left out. -/
theorem generate_reported (files : FileAccess m) (file : ManifestFile)
    (options : GenerateOptions) :
    let snapshots := if options.visualize then some file.snapshotDirectory else none
    file.generate files options = file.reported options <$>
      (({ plugins := snapshots.toList.map (Plugin.writeSnapshots files.beside) } :
        Pipeline (StateT Nat m)).emit .kotlin file.manifest.scan (file.target options.output)
          (if options.dryRun then Sink.preview else Sink.directory files.beside)).run.run' 0 := by
  intro snapshots
  rw [map_eq_pure_bind]
  rfl

/-- A standard emission behind another program, in the setting that it is run in. -/
theorem run_emission_behind (files : FileAccess m) (file : ManifestFile)
    (options : GenerateOptions) (watch : ExceptT PipelineFailure (StateT Nat m) Unit) :
    (watch.adapt EmissionFailure.pipeline >>= fun _ =>
        ({} : Pipeline (StateT Nat m)).emit .kotlin file.manifest.scan (file.target options.output)
          (if options.dryRun then Sink.preview else Sink.directory files.beside)).run.run' 0 =
      watch.run.run' 0 >>= fun
        | .error failure => pure (.error (.pipeline failure))
        | .ok () => (file.emission files options).run := by
  have hadapt : (watch.adapt EmissionFailure.pipeline).run =
      Except.mapError EmissionFailure.pipeline <$> watch.run := rfl
  rw [ExceptT.run_bind, hadapt, emit_beside, ← ManifestFile.emission]
  simp only [StateT.run'_eq, StateT.run_bind, bind_map_left, map_bind]
  congr 1
  funext answer
  obtain ⟨failure | _, count⟩ := answer
  · simp [Except.mapError]
  · simp [Except.mapError]

/-- A run of generation writes its snapshots, if there are to be any, and then reports on the
standard emission, unless a snapshot could not be written. -/
theorem generate_watched (files : FileAccess m) (file : ManifestFile) (options : GenerateOptions) :
    ∃ watch : m (Except PipelineFailure Unit),
      (options.visualize = false → watch = pure (.ok ())) ∧
      file.generate files options = watch >>= fun
        | .error failure => pure (.error (.generation (.pipeline failure)))
        | .ok () => file.reported options <$> (file.emission files options).run := by
  rw [generate_reported]
  cases hv : options.visualize with
  | false =>
    refine ⟨pure (.ok ()), fun _ => rfl, ?_⟩
    rw [pure_bind]
    show _ <$> (({} : Pipeline (StateT Nat m)).emit .kotlin file.manifest.scan
      (file.target options.output) _).run.run' 0 = _
    rw [emit_beside]
    simp [ManifestFile.emission]
  | true =>
    obtain ⟨record, hrecord⟩ : ∃ record, Plugin.writeSnapshots
        (files.beside : FileAccess (StateT Nat m)) file.snapshotDirectory = .snapshots record :=
      ⟨_, rfl⟩
    refine ⟨(file.manifest.scan.watched record).run.run' 0, by simp, ?_⟩
    have hpipeline :
        ({ plugins := [Plugin.writeSnapshots files.beside file.snapshotDirectory] } :
          Pipeline (StateT Nat m)) = .recording record := by
      rw [Pipeline.recording, ← hrecord]
    rw [if_pos rfl, Option.toList_some, List.map_singleton, hpipeline, emit_recording,
      run_emission_behind, map_bind]
    congr 1
    funext answer
    obtain failure | _ := answer
    · simp [ManifestFile.reported]
    · rfl

end
end StyleFamily
