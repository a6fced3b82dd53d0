import StyleFamily.Emission

/-!
# Pipelines that only annotate

Phases and plugins that are added to a pipeline may stop a run or add diagnostics to it, and act on
a world of their own. If they leave all else of the context alone, a run that ends without an error
has gone through every phase: the family it leaves is that of the schema it began with, and the
diagnostics it began with stand first.
-/
namespace StyleFamily

/-- The one context is the other with more diagnostics. -/
def Context.Annotates (before after : Context) : Prop := ∃ added, after = before.report added

theorem Context.Annotates.refl (context : Context) : context.Annotates context :=
  ⟨[], by simp [Context.report]⟩

theorem Context.Annotates.trans {first second third : Context} (h : first.Annotates second)
    (h' : second.Annotates third) : first.Annotates third := by
  obtain ⟨added, rfl⟩ := h
  obtain ⟨more, rfl⟩ := h'
  exact ⟨added ++ more, by simp [Context.report]⟩

section
variable {ω : Type}

/-- What the pipeline compiles the scan to, and the world it leaves. -/
def Pipeline.compiled (pipeline : Pipeline (StateM ω)) (scan : ScanOutcome) (world : ω) :
    Except PipelineFailure (Except ScanMiss Context) × ω :=
  (pipeline.compile scan).run.run world

/-- A step that adds diagnostics or stops the run, and leaves all else of the context alone. -/
def Step.Annotates (step : Step (StateM ω)) : Prop :=
  ∀ before world after next, (step before).run.run world = (.ok after, next) →
    before.Annotates after

theorem annotates_pure {change : Context → Context}
    (h : ∀ context : Context, context.Annotates (change context)) :
    Step.Annotates (ω := ω) fun context => pure (change context) := by
  intro before world after next hrun
  obtain ⟨he, _⟩ := Prod.mk.inj hrun
  obtain rfl := Except.ok.inj he
  exact h before

/-- A pipeline whose added phases and plugins do no more than annotate. Its lints are any. -/
structure Pipeline.Annotates (pipeline : Pipeline (StateM ω)) : Prop where
  phases : ∀ phase ∈ pipeline.extraPhases, phase.run.Annotates
  before : ∀ plugin ∈ pipeline.plugins, ∀ phase, (plugin.before phase).Annotates
  after : ∀ plugin ∈ pipeline.plugins, ∀ phase, (plugin.after phase).Annotates

/-- One step of a fallible program after another. -/
theorem run_bind_world {ε α β : Type} (first : ExceptT ε (StateM ω) α)
    (rest : α → ExceptT ε (StateM ω) β) (world : ω) :
    (first >>= rest).run.run world =
      match first.run.run world with
      | (.error e, world) => (.error e, world)
      | (.ok a, world) => (rest a).run.run world := by
  have hbind : (first >>= rest).run.run world =
      (fun result : Except ε α × ω =>
        (ExceptT.bindCont rest result.1 : StateM ω _).run result.2) (first.run.run world) := rfl
  rw [hbind]
  rcases first.run.run world with ⟨e | a, next⟩ <;> rfl

/-- A fallible program succeeds when its first part does and then the rest. -/
theorem exists_ok_of_bind {ε α β : Type} {first : ExceptT ε (StateM ω) α}
    {rest : α → ExceptT ε (StateM ω) β} {world next : ω} {b : β}
    (h : (first >>= rest).run.run world = (.ok b, next)) :
    ∃ a between, first.run.run world = (.ok a, between) ∧
      (rest a).run.run between = (.ok b, next) := by
  rw [run_bind_world] at h
  rcases hfirst : first.run.run world with ⟨e | a, between⟩
  · rw [hfirst] at h
    exact absurd (Prod.mk.inj h).1 (by rintro ⟨⟩)
  · rw [hfirst] at h
    exact ⟨a, between, rfl, h⟩

/-- Steps that annotate do so one after another. -/
theorem foldlM_annotates {plugins : List (Plugin (StateM ω))}
    (step : Plugin (StateM ω) → Step (StateM ω))
    (h : ∀ plugin ∈ plugins, (step plugin).Annotates) :
    Step.Annotates fun context =>
      plugins.foldlM (fun context plugin => step plugin context) context := by
  induction plugins with
  | nil => exact annotates_pure .refl
  | cons plugin rest ih =>
    intro before world after next hrun
    obtain ⟨hfirst, hrest⟩ := List.forall_mem_cons.mp h
    obtain ⟨between, world', hstep, hrun⟩ := exists_ok_of_bind hrun
    exact (hfirst _ _ _ _ hstep).trans (ih hrest _ _ _ _ hrun)

namespace Pipeline

/-- A schema that was found is compiled by a run, which begins with the remarks of the scan. -/
theorem compiled_found (pipeline : Pipeline (StateM ω)) (schema : Schema) (notes : List ScanNote)
    (world : ω) :
    pipeline.compiled (.found schema notes) world =
      match (pipeline.run (.ofScan schema notes)).run.run world with
      | (.error failure, world) => (.error failure, world)
      | (.ok context, world) => (.ok (.ok context), world) := by
  rw [compiled, compile]
  simp only [ScanOutcome.found?, map_eq_pure_bind]
  rw [run_bind_world]
  rcases (pipeline.run (.ofScan schema notes)).run.run world with ⟨failure | context, next⟩ <;> rfl

variable {pipeline : Pipeline (StateM ω)} (h : pipeline.Annotates)
include h

/-- Around a phase, plugins that annotate add diagnostics before and after it. -/
theorem runPhase_around {phase : Phase (StateM ω)} {start last : Context} {world next : ω}
    (hrun : (runPhase pipeline.plugins phase start).run.run world = (.ok last, next)) :
    ∃ entered left world next, start.Annotates entered ∧
      (phase.run entered).run.run world = (.ok left, next) ∧ left.Annotates last := by
  obtain ⟨entered, world', hbefore, hrun⟩ := exists_ok_of_bind hrun
  obtain ⟨left, world'', hphase, hafter⟩ := exists_ok_of_bind hrun
  have hb := foldlM_annotates (fun plugin => plugin.before phase.name)
    (fun plugin hp => h.before plugin hp phase.name) _ _ _ _ hbefore
  have ha := foldlM_annotates (fun plugin => plugin.after phase.name)
    (fun plugin hp => h.after plugin hp phase.name) _ _ _ _ hafter
  exact ⟨entered, left, _, _, hb, hphase, ha⟩

theorem runPhase_annotates {phase : Phase (StateM ω)} (hp : phase.run.Annotates) :
    (runPhase pipeline.plugins phase).Annotates := by
  intro start world last next hrun
  obtain ⟨entered, left, world, next, hb, hphase, ha⟩ := runPhase_around h hrun
  exact (hb.trans (hp _ _ _ _ hphase)).trans ha

omit h in
/-- After its first phase a run goes on, unless the phase left an error behind. -/
theorem runPhases_cons {phase : Phase (StateM ω)} {rest : List (Phase (StateM ω))}
    {start last : Context} {world next : ω}
    (hrun : (runPhases pipeline.plugins (phase :: rest) start).run.run world = (.ok last, next)) :
    ∃ between world',
      (runPhase pipeline.plugins phase start).run.run world = (.ok between, world') ∧
      (between.hasErrors = true ∧ last = between ∨
        between.hasErrors = false ∧
          (runPhases pipeline.plugins rest between).run.run world' = (.ok last, next)) := by
  obtain ⟨between, world', hphase, hrun⟩ := exists_ok_of_bind hrun
  refine ⟨between, world', hphase, ?_⟩
  cases he : between.hasErrors with
  | true =>
    rw [if_pos he] at hrun
    obtain ⟨hl, _⟩ := Prod.mk.inj hrun
    exact .inl ⟨rfl, (Except.ok.inj hl).symm⟩
  | false =>
    rw [if_neg (by simp [he])] at hrun
    exact .inr ⟨rfl, hrun⟩

theorem runPhases_annotates {phases : List (Phase (StateM ω))}
    (hp : ∀ phase ∈ phases, phase.run.Annotates) :
    (runPhases pipeline.plugins phases).Annotates := by
  induction phases with
  | nil => exact annotates_pure .refl
  | cons phase rest ih =>
    intro start world last next hrun
    obtain ⟨hfirst, hrest⟩ := List.forall_mem_cons.mp hp
    obtain ⟨between, world', hphase, ⟨_, rfl⟩ | ⟨_, hrun⟩⟩ := runPhases_cons hrun
    · exact runPhase_annotates h hfirst _ _ _ _ hphase
    · exact (runPhase_annotates h hfirst _ _ _ _ hphase).trans (ih hrest _ _ _ _ hrun)

/-- The assembly puts the family in place, whatever is annotated around it. -/
theorem runPhase_assemble {start last : Context} {world next : ω}
    (hrun : (runPhase pipeline.plugins .assemble start).run.run world = (.ok last, next)) :
    Context.Annotates { start with artifacts := some (assemble start.schema) } last := by
  obtain ⟨entered, left, world, next, ⟨before, rfl⟩, hphase, ⟨after, rfl⟩⟩ :=
    runPhase_around h hrun
  obtain ⟨hl, _⟩ := Prod.mk.inj hphase
  obtain rfl := Except.ok.inj hl
  exact ⟨before ++ after, by simp [Context.report]⟩

/-- A run that ends without an error has assembled the family, since it stopped nowhere. -/
theorem run_completes {start last : Context} {world next : ω}
    (hrun : (pipeline.run start).run.run world = (.ok last, next)) :
    (∃ added, last.diagnostics = start.diagnostics ++ added) ∧
      (last.hasErrors = false → last.artifacts = some (assemble start.schema)) := by
  have hlint : (Phase.validate pipeline.lints : Phase (StateM ω)).run.Annotates :=
    annotates_pure fun _ => ⟨_, rfl⟩
  obtain ⟨linted, world1, hvalidate, hrun⟩ := runPhases_cons hrun
  obtain ⟨found, rfl⟩ := runPhase_annotates h hlint _ _ _ _ hvalidate
  rcases hrun with ⟨he, rfl⟩ | ⟨_, hrun⟩
  · exact ⟨⟨found, rfl⟩, fun hn => absurd (he.symm.trans hn) (by decide)⟩
  · obtain ⟨assembled, world2, hassemble, hrun⟩ := runPhases_cons hrun
    have hfamily := runPhase_assemble h hassemble
    have hrest : assembled.Annotates last := by
      rcases hrun with ⟨_, rfl⟩ | ⟨_, hrun⟩
      · exact .refl _
      · exact runPhases_annotates h h.phases _ _ _ _ hrun
    obtain ⟨added, rfl⟩ := hfamily.trans hrest
    exact ⟨⟨found ++ added, by simp [Context.report]⟩, fun _ => rfl⟩

/-- What a compilation leaves of a schema: the remarks of the scan stand first, and the family is
that of the schema, unless an error is left. -/
theorem compiled_completes {schema : Schema} {notes : List ScanNote} {context : Context}
    {world next : ω}
    (hrun : (pipeline.run (.ofScan schema notes)).run.run world = (.ok context, next)) :
    (∃ added, context.diagnostics = notes.map ScanNote.diagnostic ++ added) ∧
      context.accepted? = if context.hasErrors then none else some (assemble schema) := by
  obtain ⟨hadded, hartifacts⟩ := run_completes h hrun
  refine ⟨hadded, ?_⟩
  rw [Context.accepted?]
  cases he : context.hasErrors with
  | true => rfl
  | false => exact hartifacts he

end Pipeline
end
end StyleFamily
