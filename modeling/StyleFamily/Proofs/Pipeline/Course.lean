import StyleFamily.Proofs.Pipeline.Delivery

/-!
# The course of a run

A run is observed by putting an entry on record for every step that a phase or a plugin takes: the
context the step was given and what came of it. The record changes nothing of the run. It is a
chain, in which every event begins with what the one before it left, and it falls into rounds, one
for each phase that was begun.
-/
namespace StyleFamily

/-- When in a phase something happens: in a step of a plugin, told by its place among the plugins,
or in the phase itself. -/
inductive Moment
  | before (plugin : Nat)
  | run
  | after (plugin : Nat)
deriving DecidableEq

structure Event where
  phase : String
  moment : Moment
deriving DecidableEq

/-- An event with the context it was given and what came of it. -/
structure TraceEntry where
  event : Event
  context : Context
  outcome : Except PipelineFailure Context

/-- The diagnostics an event has added. -/
def TraceEntry.added (entry : TraceEntry) : List Diagnostic :=
  match entry.outcome with
  | .ok next => next.diagnostics.drop entry.context.diagnostics.length
  | .error _ => []

/-- The events of a phase: the plugins in order, the phase, and the plugins again. -/
def roundEvents (plugins : Nat) (phase : String) : List Event :=
  (List.range plugins).map (fun place => ⟨phase, .before place⟩) ++
    ⟨phase, .run⟩ :: (List.range plugins).map fun place => ⟨phase, .after place⟩

section
variable {m : Type → Type} [Monad m]

/-- The step with an entry on record, whether it succeeds or fails. -/
def Step.recorded (event : Event) (step : Step m) : Step (StateT (List TraceEntry) m) :=
  fun context =>
  .mk fun record => do
    let outcome ← (step context).run
    pure (outcome, record ++ [⟨event, context, outcome⟩])

def Phase.recorded (phase : Phase m) : Phase (StateT (List TraceEntry) m) where
  name := phase.name
  description := phase.description
  run := phase.run.recorded ⟨phase.name, .run⟩

def Plugin.recorded (plugin : Plugin m) (place : Nat) : Plugin (StateT (List TraceEntry) m) where
  name := plugin.name
  before phase := (plugin.before phase).recorded ⟨phase, .before place⟩
  after phase := (plugin.after phase).recorded ⟨phase, .after place⟩

/-- Steps with an entry on record for each. -/
def recordedSteps (steps : List (Event × Step m)) : List (Step (StateT (List TraceEntry) m)) :=
  steps.map fun (event, step) => Step.recorded event step

/-- Steps taken one after another. -/
def Step.chain (steps : List (Step m)) : Step m := fun context =>
  steps.foldlM (fun context step => step context) context

/-- The steps of a phase with the events they are. -/
def Phase.steps (phase : Phase m) (plugins : List (Plugin m)) : List (Event × Step m) :=
  plugins.zipIdx.map
      (fun (plugin, place) => (⟨phase.name, .before place⟩, plugin.before phase.name)) ++
    (⟨phase.name, .run⟩, phase.run) ::
      plugins.zipIdx.map
        fun (plugin, place) => (⟨phase.name, .after place⟩, plugin.after phase.name)

omit [Monad m] in
theorem Phase.events_steps (phase : Phase m) (plugins : List (Plugin m)) :
    (phase.steps plugins).map (·.1) = roundEvents plugins.length phase.name := by
  have hplaces : ∀ event : Nat → Event,
      plugins.zipIdx.map (fun entry => event entry.2) =
        (List.range plugins.length).map event := by
    intro event
    rw [List.range_eq_range', ← List.zipIdx_map_snd 0 plugins, List.map_map]
    rfl
  simp only [steps, List.map_append, List.map_cons, List.map_map, Function.comp_def]
  rw [hplaces fun place => ⟨phase.name, .before place⟩,
    hplaces fun place => ⟨phase.name, .after place⟩, roundEvents]

variable [LawfulMonad m]

/-- A phase with the plugins around it is the chain of its steps. -/
theorem runPhase_chain (plugins : List (Plugin m)) (phase : Phase m) (context : Context) :
    Pipeline.runPhase plugins phase context =
      Step.chain ((phase.steps plugins).map (·.2)) context := by
  have hsteps : ∀ step : Plugin m → Step m,
      plugins.zipIdx.map (fun entry => step entry.1) = plugins.map step := by
    intro step
    conv => rhs; rw [← List.zipIdx_map_fst 0 plugins, List.map_map]
    rfl
  have hmap : (phase.steps plugins).map (·.2) =
      plugins.map (fun plugin => plugin.before phase.name) ++
        phase.run :: plugins.map fun plugin => plugin.after phase.name := by
    simp only [Phase.steps, List.map_append, List.map_cons, List.map_map, Function.comp_def]
    rw [hsteps fun plugin => plugin.before phase.name,
      hsteps fun plugin => plugin.after phase.name]
  rw [hmap, Step.chain, Pipeline.runPhase]
  simp only [List.foldlM_append, List.foldlM_cons, List.foldlM_map]

theorem runPhase_recorded (plugins : List (Plugin m)) (phase : Phase m) (context : Context) :
    Pipeline.runPhase (plugins.zipIdx.map fun (plugin, place) => plugin.recorded place)
        phase.recorded context =
      Step.chain (recordedSteps (phase.steps plugins)) context := by
  rw [Pipeline.runPhase, Step.chain, recordedSteps, Phase.steps]
  simp only [List.map_append, List.map_cons, List.map_map, List.foldlM_append, List.foldlM_cons,
    List.foldlM_map]
  rfl

end

/-- Events of which each is given what the one before it left, and of which only the last may fail.
What the last one makes of its context is the outcome of all. -/
inductive Chain : Context → List TraceEntry → Except PipelineFailure Context → Prop
  | done (context) : Chain context [] (.ok context)
  | failed (event context failure) :
    Chain context [⟨event, context, .error failure⟩] (.error failure)
  | step (event context) {next entries outcome} (rest : Chain next entries outcome) :
    Chain context (⟨event, context, .ok next⟩ :: entries) outcome

namespace Chain

theorem append {start next : Context} {first rest : List TraceEntry}
    {outcome : Except PipelineFailure Context} (h : Chain start first (.ok next))
    (h' : Chain next rest outcome) : Chain start (first ++ rest) outcome := by
  generalize hanswer : (Except.ok next : Except PipelineFailure Context) = answer at h
  induction h with
  | done context =>
    obtain rfl := Except.ok.inj hanswer
    exact h'
  | failed event context failure => exact absurd hanswer (by simp)
  | step event context _ ih => exact .step event context (ih hanswer)

/-- Wherever a chain is cut, the event behind the cut begins with what the front came to. -/
theorem cut {start : Context} {front rest : List TraceEntry} {entry : TraceEntry}
    {outcome : Except PipelineFailure Context} (h : Chain start (front ++ entry :: rest) outcome) :
    Chain start front (.ok entry.context) ∧ Chain entry.context (entry :: rest) outcome := by
  induction front generalizing start with
  | nil =>
    cases h with
    | failed event context failure => exact ⟨.done _, .failed _ _ _⟩
    | step event context h => exact ⟨.done _, .step _ _ h⟩
  | cons first more ih =>
    rw [List.cons_append] at h
    generalize htail : more ++ entry :: rest = tail at h
    cases h with
    | failed event context failure => simp at htail
    | step event context h =>
      obtain ⟨hfront, hback⟩ := ih (htail ▸ h)
      exact ⟨.step _ _ hfront, hback⟩

theorem succeeds {start last : Context} {entries : List TraceEntry}
    (h : Chain start entries (.ok last)) : ∀ entry ∈ entries, ∃ next, entry.outcome = .ok next := by
  generalize hanswer : (Except.ok last : Except PipelineFailure Context) = answer at h
  induction h with
  | done context => simp
  | failed event context failure => exact absurd hanswer (by simp)
  | step event context _ ih => exact List.forall_mem_cons.mpr ⟨⟨_, rfl⟩, ih hanswer⟩

/-- A chain fails where it ends. -/
theorem fails {start : Context} {entries : List TraceEntry} {failure : PipelineFailure}
    (h : Chain start entries (.error failure)) :
    ∃ front entry, entries = front ++ [entry] ∧ entry.outcome = .error failure := by
  generalize hanswer : (Except.error failure : Except PipelineFailure Context) = answer at h
  induction h with
  | done context => exact absurd hanswer (by simp)
  | failed event context other =>
    obtain rfl := Except.error.inj hanswer
    exact ⟨[], _, rfl, rfl⟩
  | step event context _ ih =>
    obtain ⟨front, entry, rfl, hentry⟩ := ih hanswer
    exact ⟨_ :: front, entry, rfl, hentry⟩

/-- Behind an event that fails there is no other. -/
theorem rest_of_failed {start : Context} {front rest : List TraceEntry} {entry : TraceEntry}
    {failure : PipelineFailure} {outcome : Except PipelineFailure Context}
    (h : Chain start (front ++ entry :: rest) outcome) (hentry : entry.outcome = .error failure) :
    rest = [] ∧ outcome = .error failure := by
  obtain ⟨_, hback⟩ := h.cut
  obtain ⟨event, context, result⟩ := entry
  cases hback with
  | failed => exact ⟨rfl, hentry⟩
  | step => exact absurd hentry (by simp)

end Chain

section
variable {ω : Type}

/-- All there is to see of a run: its answer, the events and the world it leaves. -/
structure Trace (ω : Type) where
  answer : Except PipelineFailure Context
  entries : List TraceEntry
  world : ω

def Trace.events (trace : Trace ω) : List Event := trace.entries.map (·.event)

/-- A run of phases with every step on record. -/
def Pipeline.traceOf (plugins : List (Plugin (StateM ω))) (phases : List (Phase (StateM ω)))
    (start : Context) (record : List TraceEntry) (world : ω) : Trace ω :=
  let run := runPhases (plugins.zipIdx.map fun (plugin, place) => plugin.recorded place)
    (phases.map Phase.recorded) start
  let ((answer, entries), world) := (run.run.run record).run world
  ⟨answer, entries, world⟩

/-- An entry of one of these steps. -/
def TraceEntry.TakenFrom (steps : List (Event × Step (StateM ω))) (entry : TraceEntry) : Prop :=
  ∃ step world next, (entry.event, step) ∈ steps ∧
    (step entry.context).run.run world = (entry.outcome, next)

theorem TraceEntry.TakenFrom.mono {steps more : List (Event × Step (StateM ω))} {entry : TraceEntry}
    (h : entry.TakenFrom steps) (hs : steps ⊆ more) : entry.TakenFrom more := by
  obtain ⟨step, world, next, hm, hrun⟩ := h
  exact ⟨step, world, next, hs hm, hrun⟩

/-- A run of steps: its events are the first of theirs, and all of them unless one fails. -/
structure ChainRun (steps : List (Event × Step (StateM ω))) (start : Context) (trace : Trace ω) :
    Prop where
  chain : Chain start trace.entries trace.answer
  events : trace.events <+: steps.map (·.1)
  complete : ∀ last, trace.answer = .ok last → trace.events = steps.map (·.1)
  taken : ∀ entry ∈ trace.entries, entry.TakenFrom steps

/-- With a record of the steps, a chain of them comes to the same in the same world. -/
theorem chain_recorded (steps : List (Event × Step (StateM ω))) (start : Context)
    (record : List TraceEntry) (world : ω) :
    ∃ trace : Trace ω, ChainRun steps start trace ∧
      (Step.chain (m := StateM ω) (steps.map (·.2)) start).run.run world =
        (trace.answer, trace.world) ∧
      ((Step.chain (recordedSteps steps) start).run.run record).run world =
        ((trace.answer, record ++ trace.entries), trace.world) := by
  induction steps generalizing start record world with
  | nil =>
    refine ⟨⟨.ok start, [], world⟩, ⟨.done _, List.prefix_refl _, fun _ _ => rfl, by simp⟩, rfl, ?_⟩
    rw [List.append_nil]
    rfl
  | cons head rest ih =>
    obtain ⟨event, step⟩ := head
    rw [recordedSteps, List.map_cons, List.map_cons, Step.chain, Step.chain, List.foldlM_cons,
      List.foldlM_cons, run_bind_world, run_bind_both]
    have hrecorded : ((Step.recorded event step start).run.run record).run world =
        ((((step start).run.run world).1,
          record ++ [⟨event, start, ((step start).run.run world).1⟩]),
          ((step start).run.run world).2) := rfl
    rw [hrecorded]
    rcases hstep : (step start).run.run world with ⟨failure | next, world'⟩
    · refine ⟨⟨.error failure, [⟨event, start, .error failure⟩], world'⟩, ?_, rfl, rfl⟩
      refine ⟨.failed _ _ _, ?_, by simp, ?_⟩
      · exact ⟨rest.map (·.1), rfl⟩
      · intro entry hm
        obtain rfl := List.mem_singleton.mp hm
        exact ⟨step, world, world', List.mem_cons_self, hstep⟩
    · obtain ⟨trace, hrun, hplain, hrecord⟩ :=
        ih next (record ++ [⟨event, start, .ok next⟩]) world'
      refine ⟨⟨trace.answer, ⟨event, start, .ok next⟩ :: trace.entries, trace.world⟩, ?_, hplain,
        ?_⟩
      · refine ⟨.step _ _ hrun.chain, ?_, ?_, ?_⟩
        · exact (List.cons_prefix_cons).mpr ⟨rfl, hrun.events⟩
        · intro last hlast
          exact congrArg (event :: ·) (hrun.complete last hlast)
        · intro entry hm
          rcases List.mem_cons.mp hm with rfl | hm
          · exact ⟨step, world, world', List.mem_cons_self, hstep⟩
          · exact (hrun.taken entry hm).mono (List.subset_cons_self _ _)
      · refine hrecord.trans ?_
        rw [List.append_assoc]
        rfl

/-- What phases come to one after another, each phase a chain of its own, with the phases that were
finished and the contexts they left. -/
inductive Course (plugins : List (Plugin (StateM ω))) :
    List (Phase (StateM ω)) → Context → ω → List (String × Context) → Trace ω → Prop
  | exhausted (context world) : Course plugins [] context world [] ⟨.ok context, [], world⟩
  | failed {phase rest context world failure entries next}
    (run : (Pipeline.runPhase plugins phase context).run.run world = (.error failure, next))
    (round : ChainRun (phase.steps plugins) context (ω := ω) ⟨.error failure, entries, next⟩) :
    Course plugins (phase :: rest) context world [] ⟨.error failure, entries, next⟩
  | stopped {phase rest context world left entries next}
    (run : (Pipeline.runPhase plugins phase context).run.run world = (.ok left, next))
    (round : ChainRun (phase.steps plugins) context (ω := ω) ⟨.ok left, entries, next⟩)
    (errors : left.hasErrors = true) :
    Course plugins (phase :: rest) context world [(phase.name, left)] ⟨.ok left, entries, next⟩
  | next {phase rest context world left entries next finished trace}
    (run : (Pipeline.runPhase plugins phase context).run.run world = (.ok left, next))
    (round : ChainRun (phase.steps plugins) context (ω := ω) ⟨.ok left, entries, next⟩)
    (clean : left.hasErrors = false) (course : Course plugins rest left next finished trace) :
    Course plugins (phase :: rest) context world ((phase.name, left) :: finished)
      { trace with entries := entries ++ trace.entries }

namespace Course
variable {plugins : List (Plugin (StateM ω))} {phases : List (Phase (StateM ω))} {start : Context}
  {world : ω} {finished : List (String × Context)} {trace : Trace ω}

/-- The course of a run ends as the run does. -/
theorem run_eq (h : Course plugins phases start world finished trace) :
    (Pipeline.runPhases plugins phases start).run.run world = (trace.answer, trace.world) := by
  induction h with
  | exhausted context world => rfl
  | failed run _ =>
    rw [Pipeline.runPhases, run_bind_world, run]
  | stopped run _ errors =>
    rw [Pipeline.runPhases, run_bind_world, run]
    dsimp only
    rw [if_pos errors]
    rfl
  | next run _ clean _ ih =>
    rw [Pipeline.runPhases, run_bind_world, run]
    dsimp only
    rw [if_neg (by simp [clean])]
    exact ih

end Course

/-- The record of a run is its course. -/
theorem course_traceOf (plugins : List (Plugin (StateM ω))) (phases : List (Phase (StateM ω)))
    (start : Context) (record : List TraceEntry) (world : ω) :
    ∃ finished trace, Course plugins phases start world finished trace ∧
      Pipeline.traceOf plugins phases start record world =
        { trace with entries := record ++ trace.entries } := by
  induction phases generalizing start record world with
  | nil => exact ⟨[], _, .exhausted start world, by simp [Pipeline.traceOf]; rfl⟩
  | cons phase rest ih =>
    obtain ⟨round, hround, hplain, hrecorded⟩ :=
      chain_recorded (phase.steps plugins) start record world
    rw [← runPhase_chain] at hplain
    rw [← runPhase_recorded] at hrecorded
    rw [Pipeline.traceOf, List.map_cons, Pipeline.runPhases]
    dsimp only
    rw [run_bind_both, hrecorded]
    obtain ⟨answer, entries, next⟩ := round
    rcases answer with failure | left
    · exact ⟨[], _, .failed hplain hround, rfl⟩
    · dsimp only
      cases herrors : left.hasErrors with
      | true => exact ⟨_, _, .stopped hplain hround herrors, rfl⟩
      | false =>
        obtain ⟨finished, trace, hcourse, htrace⟩ := ih left (record ++ entries) next
        refine ⟨_, _, .next hplain hround herrors hcourse, ?_⟩
        dsimp only
        rw [← List.append_assoc]
        exact htrace

end
end StyleFamily
