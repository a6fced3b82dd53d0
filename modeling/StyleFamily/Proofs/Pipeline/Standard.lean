import StyleFamily.Emission
import StyleFamily.Proofs.Lint.Acceptance

/-!
# The pipeline that nothing is added to

Without plugins and further phases a compilation cannot be stopped, in whatever setting it runs. It
reports what the standard lints find, and the family stands in its result exactly when they accept
the schema.
-/
namespace StyleFamily

/-- The outcome of the standard lints and, where no error stands, of the assembly. -/
def Context.compiled (context : Context) : Context :=
  let linted := context.report (Lint.checkAll Lint.standard context.schema)
  if linted.hasErrors then linted
  else { linted with artifacts := some (assemble context.schema) }

/-- What a scan is compiled to. -/
def ScanOutcome.compiled (scan : ScanOutcome) : Except ScanMiss Context :=
  scan.found?.map fun (schema, notes) => (Context.ofScan schema notes).compiled

section
variable {m : Type → Type} [Monad m] [LawfulMonad m]

theorem run_standard (context : Context) :
    ({} : Pipeline m).run context = pure context.compiled := by
  simp only [Pipeline.run, Pipeline.phases, List.append_nil, Pipeline.runPhases, Pipeline.runPhase,
    Phase.validate, Phase.assemble, List.foldlM_nil, pure_bind, bind_pure, Context.compiled]
  split
  · rfl
  · split <;> rfl

theorem compile_standard (scan : ScanOutcome) :
    ({} : Pipeline m).compile scan = pure scan.compiled := by
  unfold Pipeline.compile ScanOutcome.compiled
  cases scan.found? with
  | error miss => rfl
  | ok found =>
    simp only [run_standard, map_pure]
    rfl

/-- The sink is asked exactly for a scan that compiles to an accepted context. -/
theorem emit_standard (language : Language) (scan : ScanOutcome) (target : Target)
    (sink : Sink m) :
    (({} : Pipeline m).emit language scan target sink).run =
      match scan.compiled with
      | .error miss => pure (.ok (.noDeclaration miss))
      | .ok context =>
        match context.accepted? with
        | none => pure (.ok (.rejected context.diagnostics))
        | some artifacts =>
          let unit := language.unit artifacts target.package
          (fun answer => (answer.mapError .sink).map fun receipt =>
              .emitted ⟨unit, receipt, artifacts, context.diagnostics⟩) <$>
            sink.accept unit target := by
  have hadapt : ∀ c : Except ScanMiss Context,
      (pure c : ExceptT PipelineFailure m _).adapt EmissionFailure.pipeline = pure c := by
    intro c
    change Except.mapError EmissionFailure.pipeline <$> pure (.ok c) = pure (.ok c)
    rw [map_pure]
    rfl
  unfold Pipeline.emit
  rw [compile_standard, hadapt, pure_bind]
  cases scan.compiled with
  | error miss => rfl
  | ok context =>
    cases hc : context.accepted? with
    | none => simp only [hc]; rfl
    | some artifacts =>
      simp only [hc, ExceptT.run_bind]
      change (Except.mapError EmissionFailure.sink <$> sink.accept _ target) >>= _ = _
      rw [bind_map_left, map_eq_pure_bind]
      congr 1
      funext answer
      cases answer <;> rfl

end

theorem scanNotes_no_error (notes : List ScanNote) :
    (notes.map ScanNote.diagnostic).any Diagnostic.isError = false := by
  rw [List.any_map, List.any_eq_false]
  intro note _
  simp [ScanNote.diagnostic, Diagnostic.isError]

variable (schema : Schema) (notes : List ScanNote)

/-- Remarks of the scan are no errors, so the lints alone decide. -/
theorem hasErrors_linted (context : Context)
    (hd : context.diagnostics =
      notes.map ScanNote.diagnostic ++ Lint.checkAll Lint.standard schema) :
    context.hasErrors = !Lint.accepts schema := by
  rw [Context.hasErrors, Lint.accepts, Bool.not_not, hd, List.any_append, scanNotes_no_error,
    Bool.false_or]

theorem compiled_ofScan : (Context.ofScan schema notes).compiled =
    { schema
      artifacts := if Lint.accepts schema then some (assemble schema) else none
      diagnostics := notes.map ScanNote.diagnostic ++ Lint.checkAll Lint.standard schema } := by
  unfold Context.compiled
  simp only
  rw [hasErrors_linted schema notes _ rfl]
  cases Lint.accepts schema <;> rfl

theorem compiled_accepted : (Context.ofScan schema notes).compiled.accepted? =
    if Lint.accepts schema then some (assemble schema) else none := by
  rw [compiled_ofScan, Context.accepted?, hasErrors_linted schema notes _ rfl]
  cases Lint.accepts schema <;> rfl

theorem compiled_errorCount :
    Diagnostic.errorCount (Context.ofScan schema notes).compiled.diagnostics =
      Diagnostic.errorCount (Lint.checkAll Lint.standard schema) := by
  have hn := any_isError_eq_false.mp (scanNotes_no_error notes)
  rw [compiled_ofScan]
  simp only [Diagnostic.errorCount, List.countP_append] at hn ⊢
  rw [hn, Nat.zero_add]

end StyleFamily
