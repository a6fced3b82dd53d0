import StyleFamily.Proofs.Pipeline.Schedule

/-!
# What a run adds

Steps that do no more than add diagnostics and put the family in place leave a context that has
grown: the schema stays, and the diagnostics are those from before and what every event added.
-/
namespace StyleFamily

/-- A later context of the same run: there may be more diagnostics, and the family in place. -/
structure Context.Grows (before after : Context) : Prop where
  schema : after.schema = before.schema
  diagnostics : before.diagnostics <+: after.diagnostics
  artifacts : after.artifacts = before.artifacts ∨ after.artifacts = some (assemble before.schema)

namespace Context.Grows

theorem refl (context : Context) : context.Grows context := ⟨rfl, List.prefix_refl _, .inl rfl⟩

theorem trans {first second third : Context} (h : first.Grows second) (h' : second.Grows third) :
    first.Grows third where
  schema := h'.schema.trans h.schema
  diagnostics := h.diagnostics.trans h'.diagnostics
  artifacts := by
    have hfamily := h'.artifacts
    rw [h.schema] at hfamily
    rcases hfamily with hsame | hset
    · rw [hsame]
      exact h.artifacts
    · exact .inr hset

/-- A family that is in place stays. -/
theorem family {before after : Context} (h : before.Grows after)
    (hf : before.artifacts = some (assemble before.schema)) :
    after.artifacts = some (assemble before.schema) := by
  rcases h.artifacts with hsame | hset
  · rw [hsame, hf]
  · exact hset

theorem of_annotates {before after : Context} (h : before.Annotates after) :
    before.Grows after := by
  obtain ⟨added, rfl⟩ := h
  exact ⟨rfl, List.prefix_append _ _, .inl rfl⟩

end Context.Grows

/-- The context with the family of its schema in place. -/
def Context.assembled (context : Context) : Context :=
  { context with artifacts := some (assemble context.schema) }

theorem Context.grows_assembled (context : Context) : context.Grows context.assembled :=
  ⟨rfl, List.prefix_refl _, .inr rfl⟩

/-- An event that succeeds leaves its context grown. -/
def TraceEntry.Grows (entry : TraceEntry) : Prop :=
  ∀ next, entry.outcome = .ok next → entry.context.Grows next

/-- Events that grow leave the diagnostics they began with and what each of them added. -/
theorem Chain.grows {start last : Context} {entries : List TraceEntry}
    (h : Chain start entries (.ok last)) (hg : ∀ entry ∈ entries, entry.Grows) :
    start.Grows last ∧
      last.diagnostics = start.diagnostics ++ entries.flatMap TraceEntry.added := by
  generalize hanswer : (Except.ok last : Except PipelineFailure Context) = answer at h
  induction h with
  | done context =>
    obtain rfl := Except.ok.inj hanswer
    exact ⟨.refl _, by simp⟩
  | failed event context failure => exact absurd hanswer (by simp)
  | @step event context next entries _ _ ih =>
    obtain ⟨hfirst, hrest⟩ := List.forall_mem_cons.mp hg
    have hnext := hfirst next rfl
    obtain ⟨hgrows, hadded⟩ := ih hrest hanswer
    refine ⟨hnext.trans hgrows, ?_⟩
    obtain ⟨added, hd⟩ := hnext.diagnostics
    have hentry : TraceEntry.added ⟨event, context, .ok next⟩ = added := by
      simp only [TraceEntry.added, ← hd, List.drop_left]
    rw [hadded, List.flatMap_cons, hentry, ← List.append_assoc, hd]

section
variable {ω : Type}

/-- A pipeline whose plugins annotate, and whose added phases annotate too or assemble the family
once more. Its lints are any. -/
structure Pipeline.Supplements (pipeline : Pipeline (StateM ω)) : Prop where
  phases : ∀ phase ∈ pipeline.extraPhases,
    phase.run.Annotates ∨ phase.run = (Phase.assemble : Phase (StateM ω)).run
  before : ∀ plugin ∈ pipeline.plugins, ∀ phase, (plugin.before phase).Annotates
  after : ∀ plugin ∈ pipeline.plugins, ∀ phase, (plugin.after phase).Annotates

/-- A step that leaves its context grown. -/
def Step.Grows (step : Step (StateM ω)) : Prop :=
  ∀ before world after next, (step before).run.run world = (.ok after, next) → before.Grows after

theorem Step.Annotates.grows {step : Step (StateM ω)} (h : step.Annotates) : step.Grows :=
  fun _ _ _ _ hrun => .of_annotates (h _ _ _ _ hrun)

theorem assemble_grows : Step.Grows (Phase.assemble : Phase (StateM ω)).run := by
  intro before world after next hrun
  obtain ⟨hanswer, _⟩ := Prod.mk.inj hrun
  obtain rfl := Except.ok.inj hanswer
  exact before.grows_assembled

namespace Pipeline.Supplements
variable {pipeline : Pipeline (StateM ω)} (h : pipeline.Supplements)
include h

/-- Without its added phases the pipeline only annotates. -/
theorem annotates : { pipeline with extraPhases := [] }.Annotates where
  phases := by simp
  before := h.before
  after := h.after

theorem run_grows {phase : Phase (StateM ω)} (hp : phase ∈ pipeline.phases) : phase.run.Grows := by
  have hlint : (Phase.validate pipeline.lints : Phase (StateM ω)).run.Annotates :=
    annotates_pure fun _ => ⟨_, rfl⟩
  rcases List.mem_append.mp hp with hp | hp
  · rcases List.mem_cons.mp hp with rfl | hp
    · exact Step.Annotates.grows hlint
    · obtain rfl := List.mem_singleton.mp hp
      exact assemble_grows
  · rcases h.phases phase hp with ha | ha
    · exact Step.Annotates.grows ha
    · rw [ha]
      exact assemble_grows

theorem entry_grows {phase : Phase (StateM ω)} (hp : phase ∈ pipeline.phases) {entry : TraceEntry}
    (he : entry.TakenFrom (phase.steps pipeline.plugins)) : entry.Grows := by
  obtain ⟨step, world, next, hm, hrun⟩ := he
  have hplugin : ∀ {plugin place}, (plugin, place) ∈ pipeline.plugins.zipIdx →
      plugin ∈ pipeline.plugins := fun hm => (List.mem_zipIdx' hm).2 ▸ List.getElem_mem _
  have hstep : step.Grows := by
    rcases List.mem_append.mp hm with hm | hm
    · obtain ⟨⟨plugin, place⟩, hz, he⟩ := List.mem_map.mp hm
      obtain ⟨_, rfl⟩ := Prod.mk.inj he
      exact Step.Annotates.grows (h.before plugin (hplugin hz) phase.name)
    · rcases List.mem_cons.mp hm with he | hm
      · obtain ⟨_, rfl⟩ := Prod.mk.inj he
        exact h.run_grows hp
      · obtain ⟨⟨plugin, place⟩, hz, he⟩ := List.mem_map.mp hm
        obtain ⟨_, rfl⟩ := Prod.mk.inj he
        exact Step.Annotates.grows (h.after plugin (hplugin hz) phase.name)
  intro after hafter
  exact hstep _ _ _ _ (hafter ▸ hrun)

end Pipeline.Supplements

namespace Course
variable {plugins : List (Plugin (StateM ω))} {phases : List (Phase (StateM ω))} {start : Context}
  {world : ω} {finished : List (String × Context)} {trace : Trace ω}

theorem entries_grow (h : Course plugins phases start world finished trace)
    (hg : ∀ phase ∈ phases, ∀ entry : TraceEntry,
      entry.TakenFrom (phase.steps plugins) → entry.Grows) :
    ∀ entry ∈ trace.entries, entry.Grows := by
  intro entry hm
  obtain ⟨phase, hp, htaken⟩ := h.taken entry hm
  exact hg phase hp entry htaken

/-- From one finished phase to the next the context grows. -/
theorem finished_grow (h : Course plugins phases start world finished trace)
    (hg : ∀ phase ∈ phases, ∀ entry : TraceEntry,
      entry.TakenFrom (phase.steps plugins) → entry.Grows) :
    (start :: finished.map (·.2)).Pairwise Context.Grows := by
  induction h with
  | exhausted context world => exact List.pairwise_singleton _ _
  | failed _ _ => exact List.pairwise_singleton _ _
  | stopped _ round _ =>
    obtain ⟨hphase, _⟩ := List.forall_mem_cons.mp hg
    obtain ⟨hgrows, _⟩ := round.chain.grows fun entry hm => hphase entry (round.taken entry hm)
    simpa using hgrows
  | @next phase rest start _ left _ _ finished _ _ round _ _ ih =>
    obtain ⟨hphase, hrest⟩ := List.forall_mem_cons.mp hg
    obtain ⟨hgrows, _⟩ := round.chain.grows fun entry hm => hphase entry (round.taken entry hm)
    have hpairs := ih hrest
    refine List.pairwise_cons.mpr ⟨fun context hm => ?_, hpairs⟩
    rcases List.mem_cons.mp hm with rfl | hm
    · exact hgrows
    · exact hgrows.trans ((List.pairwise_cons.mp hpairs).1 context hm)

end Course

/-- How far a run has come: not through the lints, through the lints alone, or through the assembly
and perhaps further. -/
inductive Progress (start : Context) : List (String × Context) → Prop
  | begun : Progress start []
  | linted {left} (lints : start.Annotates left) : Progress start [(Finding.phase, left)]
  | assembled {left family later} (lints : start.Annotates left)
    (assembly : left.assembled.Annotates family)
    (more : ∀ entry ∈ later, family.Grows entry.2) :
    Progress start ((Finding.phase, left) :: ("assemble", family) :: later)

theorem Pipeline.Supplements.progress {pipeline : Pipeline (StateM ω)} (h : pipeline.Supplements)
    {start : Context} {world : ω} {finished : List (String × Context)} {trace : Trace ω}
    (hc : Course pipeline.plugins pipeline.phases start world finished trace) :
    Progress start finished := by
  have hannotates := h.annotates
  have hlint : (Phase.validate pipeline.lints : Phase (StateM ω)).run.Annotates :=
    annotates_pure fun _ => ⟨_, rfl⟩
  cases hc with
  | failed _ _ => exact .begun
  | stopped run _ _ => exact .linted (Pipeline.runPhase_annotates hannotates hlint _ _ _ _ run)
  | next run _ _ hrest =>
    have hlinted := Pipeline.runPhase_annotates hannotates hlint _ _ _ _ run
    have hgrow : ∀ phase ∈ Phase.assemble :: pipeline.extraPhases, ∀ entry : TraceEntry,
        entry.TakenFrom (phase.steps pipeline.plugins) → entry.Grows :=
      fun phase hp entry he => h.entry_grows (List.mem_cons_of_mem _ hp) he
    cases hrest with
    | failed _ _ => exact .linted hlinted
    | stopped run _ _ =>
      exact .assembled hlinted (Pipeline.runPhase_assemble hannotates run) (by simp)
    | next run _ _ hrest =>
      refine .assembled hlinted (Pipeline.runPhase_assemble hannotates run) fun entry hm => ?_
      have hpairs := hrest.finished_grow (List.forall_mem_cons.mp hgrow).2
      exact (List.pairwise_cons.mp hpairs).1 entry.2 (List.mem_map_of_mem hm)

end
end StyleFamily
