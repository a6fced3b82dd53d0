import StyleFamily.Document.Snapshot
import StyleFamily.Proofs.Pipeline.EventOrder

/-!
# Snapshots of a run

The plugin that keeps snapshots is the last of a pipeline's plugins. It changes nothing of a run,
and what it keeps is one snapshot for every phase that was finished: the context that the phase and
the other plugins left.
-/
namespace StyleFamily

section
variable {m : Type → Type} [Monad m]

/-- The plugin that keeps snapshots in memory. -/
def Plugin.keeping : Plugin (StateT (List Snapshot) m) :=
  .snapshots fun snapshot => modify (· ++ [snapshot])

/-- The pipeline with snapshots kept behind all its plugins, out of their reach. -/
def Pipeline.withSnapshots (pipeline : Pipeline m) : Pipeline (StateT (List Snapshot) m) :=
  { (pipeline.beside : Pipeline (StateT (List Snapshot) m)) with
    plugins := pipeline.plugins.map Plugin.beside ++ [.keeping] }

variable [LawfulMonad m]

/-- A phase is run as without the snapshots, and then its context is kept. -/
theorem runPhase_keeping (plugins : List (Plugin m)) (phase : Phase m) (context : Context) :
    Pipeline.runPhase (plugins.map Plugin.beside ++ [.keeping]) phase.beside context =
      (beside (Pipeline.runPhase plugins phase context) >>= fun left => do
        modify (· ++ [Snapshot.capture phase.name left])
        pure left : ExceptT PipelineFailure (StateT (List Snapshot) m) Context) := by
  rw [← Pipeline.runPhase_beside]
  simp only [Pipeline.runPhase, List.foldlM_append, List.foldlM_cons, List.foldlM_nil, bind_assoc,
    Plugin.keeping, Plugin.snapshots, bind_pure]
  rfl

end

section
variable {ω : Type}

theorem run_beside {ε κ α : Type} (program : ExceptT ε (StateM ω) α) (s : κ) (world : ω) :
    ((beside program).run.run s).run world =
      (((program.run.run world).1, s), (program.run.run world).2) :=
  rfl

/-- A phase that is finished is kept with the context it leaves. -/
theorem run_runPhase_keeping (plugins : List (Plugin (StateM ω))) (phase : Phase (StateM ω))
    (context : Context) (kept : List Snapshot) (world : ω) :
    ((Pipeline.runPhase (plugins.map Plugin.beside ++ [.keeping]) phase.beside context).run.run
      kept).run world =
      match (Pipeline.runPhase plugins phase context).run.run world with
      | (.error failure, world) => ((.error failure, kept), world)
      | (.ok left, world) => ((.ok left, kept ++ [.capture phase.name left]), world) := by
  rw [runPhase_keeping, run_bind_both, run_beside]
  rcases (Pipeline.runPhase plugins phase context).run.run world with ⟨failure | left, next⟩ <;> rfl

/-- The snapshot of a phase that was finished. -/
def snapshotOf (finished : String × Context) : Snapshot := .capture finished.1 finished.2

/-- The snapshots of a run are those of the phases that were finished. -/
theorem Course.run_keeping {plugins : List (Plugin (StateM ω))} {phases : List (Phase (StateM ω))}
    {start : Context} {world : ω} {finished : List (String × Context)} {trace : Trace ω}
    (h : Course plugins phases start world finished trace) (kept : List Snapshot) :
    ((Pipeline.runPhases (plugins.map Plugin.beside ++ [.keeping]) (phases.map Phase.beside)
      start).run.run kept).run world =
        ((trace.answer, kept ++ finished.map snapshotOf), trace.world) := by
  induction h generalizing kept with
  | exhausted context world =>
    simp only [List.map_nil, List.append_nil]
    rfl
  | failed run _ =>
    rw [List.map_cons, Pipeline.runPhases, run_bind_both, run_runPhase_keeping, run, List.map_nil,
      List.append_nil]
  | stopped run _ errors =>
    rw [List.map_cons, Pipeline.runPhases, run_bind_both, run_runPhase_keeping, run]
    dsimp only
    rw [if_pos errors]
    rfl
  | next run _ clean _ ih =>
    rw [List.map_cons, Pipeline.runPhases, run_bind_both, run_runPhase_keeping, run]
    dsimp only
    rw [if_neg (by simp [clean]), ih, List.append_assoc]
    rfl

/-- What the snapshots of a run that began with a schema and some diagnostics have to say of it. -/
structure Recounts (snapshots : List Snapshot) (trace : Trace ω) (pipeline : Pipeline (StateM ω))
    (schema : Schema) (seed : List Diagnostic) : Prop where
  /-- There is one for each of the first phases, in order, -/
  phases : snapshots.length ≤ pipeline.phases.length ∧
    snapshots.map (·.phase) = (pipeline.phases.take snapshots.length).map Phase.name
  /-- and these are the phases of which every event succeeded. -/
  finished : ∀ count ≤ pipeline.phases.length,
    count ≤ snapshots.length ↔ ∃ done, trace.Finishes (pipeline.schedule count) done
  unchanged : ∀ snapshot ∈ snapshots, snapshot.schema = schema
  /-- A snapshot holds the seed and all that was added up to the end of its phase. -/
  contents : ∀ earlier snapshot later, snapshots = earlier ++ snapshot :: later →
    ∃ done, trace.Finishes (pipeline.schedule (earlier.length + 1)) done ∧
      snapshot.diagnostics = seed ++ done.flatMap TraceEntry.added
  diagnostics : (snapshots.map (·.diagnostics)).Pairwise (· <+: ·)
  artifacts : ∀ earlier snapshot later, snapshots = earlier ++ snapshot :: later →
    snapshot.artifacts =
      if "assemble" ∈ (earlier ++ [snapshot]).map (·.phase) then some (assemble schema) else none
  /-- The last one is the context that the run answers with. -/
  last : ∀ last, trace.answer = .ok last → ∃ earlier snapshot, snapshots = earlier ++ [snapshot] ∧
    snapshot.schema = last.schema ∧ snapshot.artifacts = last.artifacts ∧
      snapshot.diagnostics = last.diagnostics

namespace Progress
variable {start : Context} {finished : List (String × Context)}

/-- The family is in the snapshot of its assembly and in all later ones. -/
theorem artifacts_snapshot (h : Progress start finished) (hs : start.artifacts = none)
    {earlier later : List Snapshot} {snapshot : Snapshot}
    (he : finished.map snapshotOf = earlier ++ snapshot :: later) :
    snapshot.artifacts = if "assemble" ∈ (earlier ++ [snapshot]).map (·.phase) then
      some (assemble start.schema) else none := by
  cases h with
  | begun => simp at he
  | @linted left lints =>
    obtain ⟨added, rfl⟩ := lints
    obtain ⟨rfl, rfl⟩ : earlier = [] ∧
        snapshotOf (Finding.phase, start.report added) = snapshot := by
      rcases earlier with _ | ⟨first, earlier⟩
      · exact ⟨rfl, (List.cons.inj he).1⟩
      · simp at he
    exact hs
  | @assembled left family more lints assembly grown =>
    obtain ⟨added, rfl⟩ := lints
    obtain ⟨added', rfl⟩ := assembly
    rcases earlier with _ | ⟨first, earlier⟩
    · obtain ⟨rfl, _⟩ := List.cons.inj he
      exact hs
    · obtain ⟨_, htail⟩ := List.cons.inj (List.cons_append ▸ he)
      rw [List.map_cons] at htail
      have hnamed : "assemble" ∈ (first :: earlier ++ [snapshot]).map (·.phase) := by
        rcases earlier with _ | ⟨second, earlier⟩
        · obtain ⟨rfl, _⟩ := List.cons.inj htail
          exact List.mem_cons_of_mem _ List.mem_cons_self
        · obtain ⟨rfl, _⟩ := List.cons.inj htail
          exact List.mem_cons_of_mem _ List.mem_cons_self
      have hm : snapshot ∈ earlier ++ snapshot :: later :=
        List.mem_append_right _ List.mem_cons_self
      rw [← htail] at hm
      rw [if_pos hnamed]
      rcases List.mem_cons.mp hm with rfl | hm
      · rfl
      · obtain ⟨entry, hentry, rfl⟩ := List.mem_map.mp hm
        exact (grown entry hentry).family rfl

end Progress

namespace Course
variable {plugins : List (Plugin (StateM ω))} {phases : List (Phase (StateM ω))} {start : Context}
  {world : ω} {finished : List (String × Context)} {trace : Trace ω}
  (h : Course plugins phases start world finished trace)
include h

/-- A snapshot holds what was there at first and what all events up to it added. -/
theorem snapshot_contents (hg : ∀ entry ∈ trace.entries, entry.Grows)
    {earlier later : List Snapshot} {snapshot : Snapshot}
    (he : finished.map snapshotOf = earlier ++ snapshot :: later) :
    ∃ done, trace.Finishes
        (scheduleOf plugins.length (phases.take (earlier.length + 1))) done ∧
      snapshot.diagnostics = start.diagnostics ++ done.flatMap TraceEntry.added := by
  have hcount : earlier.length + 1 ≤ finished.length := by
    rw [← List.length_map (f := snapshotOf), he]
    simp
  obtain ⟨done, left, hdone, hchain, hleft⟩ := h.finishes hcount
  have hat : (finished.map snapshotOf)[earlier.length]? = some snapshot := by
    rw [he, List.getElem?_append_right (Nat.le_refl _), Nat.sub_self]
    rfl
  rw [List.getElem?_cons_succ, List.getElem?_map] at hleft
  rw [List.getElem?_map] at hat
  obtain ⟨entry, hentry, rfl⟩ := Option.map_eq_some_iff.mp hat
  rw [hentry] at hleft
  obtain rfl := Option.some.inj hleft
  have hfront : ∀ entry ∈ done, entry.Grows := fun entry hm => hg entry (hdone.front.subset hm)
  exact ⟨done, hdone, (hchain.grows hfront).2⟩

/-- The last snapshot of a run that does not fail is that of its answer. -/
theorem snapshot_last (hp : phases ≠ []) {last : Context} (ha : trace.answer = .ok last) :
    ∃ earlier phase, finished.map snapshotOf = earlier ++ [.capture phase last] := by
  obtain ⟨_, _, hlast⟩ := h.ended ha
  have hpos := h.finished_pos ha hp
  obtain ⟨earlier, entry, rfl⟩ :=
    (List.eq_nil_or_concat finished).resolve_left (List.length_pos_iff.mp hpos)
  rw [List.concat_eq_append] at hlast ⊢
  rw [List.map_append, List.map_singleton, ← List.cons_append, List.getLast?_concat] at hlast
  obtain rfl := Option.some.inj hlast
  exact ⟨earlier.map snapshotOf, entry.1, by simp [snapshotOf]⟩

end Course

/-- Snapshots that are kept behind all other plugins leave the run as it is and recount it. -/
theorem snapshots_recount {pipeline : Pipeline (StateM ω)} (h : pipeline.Supplements)
    (schema : Schema) (seed : List Diagnostic) (world : ω) :
    let start : Context := { schema, diagnostics := seed }
    let trace := pipeline.trace start world
    (pipeline.run start).run.run world = (trace.answer, trace.world) ∧
      ∃ snapshots, ((pipeline.withSnapshots.run start).run.run []).run world =
          ((trace.answer, snapshots), trace.world) ∧
        Recounts snapshots trace pipeline schema seed := by
  intro start
  obtain ⟨finished, trace, hcourse, htrace⟩ := course_traceOf pipeline.plugins pipeline.phases
    start [] world
  rw [Pipeline.trace, htrace, List.nil_append]
  refine ⟨hcourse.run_eq, finished.map snapshotOf, ?_, ?_⟩
  · have hphases : pipeline.withSnapshots.phases = pipeline.phases.map Phase.beside :=
      Pipeline.phases_beside pipeline
    rw [Pipeline.run, hphases]
    exact hcourse.run_keeping []
  have hgrow : ∀ phase ∈ pipeline.phases, ∀ entry : TraceEntry,
      entry.TakenFrom (phase.steps pipeline.plugins) → entry.Grows :=
    fun phase hp entry he => h.entry_grows hp he
  have hpairs := hcourse.finished_grow hgrow
  have hlength : (finished.map snapshotOf).length = finished.length := List.length_map _
  refine
    { phases := ?phases
      finished := ?finished
      unchanged := ?unchanged
      contents := fun _ _ _ he => hcourse.snapshot_contents (hcourse.entries_grow hgrow) he
      diagnostics := ?diagnostics
      artifacts := fun _ _ _ he => (h.progress hcourse).artifacts_snapshot rfl he
      last := ?last }
  case phases =>
    rw [hlength, List.map_map]
    exact ⟨hcourse.length_finished, hcourse.names_finished⟩
  case finished =>
    intro count hc
    rw [hlength]
    constructor
    · intro hle
      obtain ⟨done, _, hdone, _⟩ := hcourse.finishes hle
      exact ⟨done, hdone⟩
    · rintro ⟨done, hdone⟩
      exact hcourse.count_le hc hdone
  case unchanged =>
    intro snapshot hm
    obtain ⟨entry, hentry, rfl⟩ := List.mem_map.mp hm
    exact ((List.pairwise_cons.mp hpairs).1 entry.2 (List.mem_map_of_mem hentry)).schema
  case diagnostics =>
    rw [List.map_map, List.pairwise_map]
    have htail := (List.pairwise_cons.mp hpairs).2
    rw [List.pairwise_map] at htail
    exact htail.imp Context.Grows.diagnostics
  case last =>
    intro last ha
    obtain ⟨earlier, phase, he⟩ := hcourse.snapshot_last (List.cons_ne_nil _ _) ha
    exact ⟨earlier, _, he, rfl, rfl, rfl⟩

end

/-- Three snapshots of a run that is failed in its last phase, and one of a run that an error from
before ends after the lints. -/
theorem gated_snapshots_recount :
    gatedPipeline.Supplements ∧
      (∃ snapshots, snapshots.map (·.phase) = ["validate", "assemble", "assemble"] ∧
        snapshots.map (·.artifacts.isSome) = [false, true, true] ∧
          Recounts snapshots (gatedPipeline.trace { schema := contentSchema } 0) gatedPipeline
            contentSchema []) ∧
      ∃ snapshots, snapshots.map (·.phase) = ["validate"] ∧
        Recounts snapshots
          (gatedPipeline.trace { schema := contentSchema, diagnostics := [unreadable] } 0)
          gatedPipeline contentSchema [unreadable] := by
  have h := gatedPipeline_supplements
  refine ⟨h, ?_, ?_⟩
  · obtain ⟨_, snapshots, hrun, hrecount⟩ := snapshots_recount h contentSchema [] 0
    obtain rfl := congrArg (fun result => result.1.2) hrun
    exact ⟨_, by decide +kernel, by decide +kernel, hrecount⟩
  · obtain ⟨_, snapshots, hrun, hrecount⟩ := snapshots_recount h contentSchema [unreadable] 0
    obtain rfl := congrArg (fun result => result.1.2) hrun
    exact ⟨_, by decide +kernel, hrecount⟩

end StyleFamily
