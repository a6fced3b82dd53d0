import StyleFamily.Proofs.Pipeline.Growth

/-!
# Runs that follow the schedule

With any plugins and further phases, the events of a run are the first of the schedule, its
diagnostics are what the events added, and the family is in place if and only if the lints were left
without an error.
-/
namespace StyleFamily

section
variable {ω : Type}

/-- A run of the pipeline with every step on record. -/
def Pipeline.trace (pipeline : Pipeline (StateM ω)) (start : Context) (world : ω) : Trace ω :=
  traceOf pipeline.plugins pipeline.phases start [] world

/-- The events of the first phases of a pipeline, as many as are counted. -/
def Pipeline.schedule (pipeline : Pipeline (StateM ω)) (count : Nat) : List Event :=
  scheduleOf pipeline.plugins.length (pipeline.phases.take count)

/-- The trace of a run that begins with a schema and some diagnostics. -/
structure Trace.Follows (trace : Trace ω) (pipeline : Pipeline (StateM ω)) (schema : Schema)
    (seed : List Diagnostic) (world : ω) : Prop where
  /-- What is on record is the run itself. -/
  run : (pipeline.run { schema, diagnostics := seed }).run.run world = (trace.answer, trace.world)
  canonical : trace.events <+: pipeline.schedule pipeline.phases.length
  /-- An event finds the seed and what the events before it added. -/
  given : ∀ front entry rest, trace.entries = front ++ entry :: rest →
    entry.context.diagnostics = seed ++ front.flatMap TraceEntry.added
  /-- An event that fails is the last one, and the run fails with it. -/
  failing : ∀ front entry rest failure, trace.entries = front ++ entry :: rest →
    entry.outcome = .error failure → rest = [] ∧ trace.answer = .error failure
  failed : ∀ failure, trace.answer = .error failure →
    ∃ front entry, trace.entries = front ++ [entry] ∧ entry.outcome = .error failure
  /-- A run that does not fail ends with a phase that leaves an error, or with the last one. -/
  ended : ∀ last, trace.answer = .ok last → ∃ count, 0 < count ∧ count ≤ pipeline.phases.length ∧
    trace.events = pipeline.schedule count ∧
      (last.hasErrors = true ∨ count = pipeline.phases.length)
  /-- No phase begins behind one that left an error. -/
  clean : ∀ front entry rest count, trace.entries = front ++ entry :: rest → 0 < count →
    front.map (·.event) = pipeline.schedule count →
      (seed ++ front.flatMap TraceEntry.added).any Diagnostic.isError = false
  diagnostics : ∀ last, trace.answer = .ok last →
    last.diagnostics = seed ++ trace.entries.flatMap TraceEntry.added
  /-- The lints run, whatever the seed, unless a plugin fails before them. -/
  linted : ⟨Finding.phase, .run⟩ ∈ trace.events ∨ ∃ front entry place failure,
    trace.entries = front ++ [entry] ∧ entry.event = ⟨Finding.phase, .before place⟩ ∧
      entry.outcome = .error failure
  /-- The family is there if and only if its assembly was begun, -/
  assembled : ∀ last, trace.answer = .ok last →
    (last.artifacts = some (assemble schema) ↔ trace.Passes (pipeline.schedule 1)) ∧
      (last.artifacts = none ↔ ¬trace.Passes (pipeline.schedule 1))
  /-- and it is begun if and only if all is done about the lints and no error stands. -/
  assembling : trace.Passes (pipeline.schedule 1) ↔
    ∃ done, trace.Finishes (pipeline.schedule 1) done ∧
      (seed ++ done.flatMap TraceEntry.added).any Diagnostic.isError = false

section
variable {pipeline : Pipeline (StateM ω)} {trace : Trace ω}

theorem schedule_prefix_of_le (pipeline : Pipeline (StateM ω)) (count : Nat) :
    pipeline.schedule count <+: pipeline.schedule pipeline.phases.length := by
  rw [Pipeline.schedule, Pipeline.schedule, List.take_length]
  conv => rhs; rw [← List.take_append_drop count pipeline.phases]
  rw [scheduleOf, scheduleOf, List.flatMap_append]
  exact List.prefix_append _ _

theorem schedule_one (pipeline : Pipeline (StateM ω)) :
    pipeline.schedule 1 = roundEvents pipeline.plugins.length Finding.phase :=
  List.append_nil _

theorem one_lt_length_phases (pipeline : Pipeline (StateM ω)) : 1 < pipeline.phases.length := by
  rw [Pipeline.phases, List.length_append]
  exact Nat.lt_add_right _ (Nat.lt_succ_self 1)

/-- A run on schedule that comes to nothing before the lints was failed by a plugin. -/
theorem linted_or_failed (h : trace.events <+: pipeline.schedule pipeline.phases.length)
    {start : Context} (hchain : Chain start trace.entries trace.answer)
    (hok : ∀ last, trace.answer = .ok last → ⟨Finding.phase, .run⟩ ∈ trace.events) :
    ⟨Finding.phase, .run⟩ ∈ trace.events ∨ ∃ front entry place failure,
      trace.entries = front ++ [entry] ∧ entry.event = ⟨Finding.phase, .before place⟩ ∧
        entry.outcome = .error failure := by
  let before : List Event :=
    (List.range pipeline.plugins.length).map fun place => ⟨Finding.phase, .before place⟩
  obtain ⟨after, hschedule⟩ : ∃ after, pipeline.schedule pipeline.phases.length =
      before ++ ⟨Finding.phase, .run⟩ :: after := by
    obtain ⟨later, hlater⟩ := schedule_prefix_of_le pipeline 1
    rw [← hlater, schedule_one, roundEvents, List.append_assoc, List.cons_append]
    exact ⟨_, rfl⟩
  rw [hschedule] at h
  rcases Nat.lt_or_ge before.length trace.events.length with hlt | hge
  · have hrun : before ++ [⟨Finding.phase, .run⟩] <+: trace.events := by
      refine List.prefix_of_prefix_length_le ⟨after, by simp⟩ h ?_
      rw [List.length_append]
      exact hlt
    exact .inl (hrun.subset (by simp))
  · have hbefore := List.prefix_of_prefix_length_le h (List.prefix_append before _) hge
    rcases ha : trace.answer with failure | last
    · obtain ⟨front, entry, hentries, hfailed⟩ := (ha ▸ hchain).fails
      have hm : entry.event ∈ trace.events := List.mem_map_of_mem (by simp [hentries])
      obtain ⟨place, _, hplace⟩ := List.mem_map.mp (hbefore.subset hm)
      exact .inr ⟨front, entry, place, failure, hentries, hplace.symm, hfailed⟩
    · exact .inl (hok last ha)

theorem length_schedule_lt {count more : Nat} (h : count < more)
    (hm : more ≤ pipeline.phases.length) :
    (pipeline.schedule count).length < (pipeline.schedule more).length :=
  length_scheduleOf_take_lt _ h hm

/-- A trace on schedule passes some phases if and only if it has more events than these. -/
theorem passes_iff (h : trace.events <+: pipeline.schedule pipeline.phases.length) (count : Nat) :
    trace.Passes (pipeline.schedule count) ↔
      (pipeline.schedule count).length < trace.events.length := by
  constructor
  · rintro ⟨front, entry, rest, he, hf⟩
    rw [Trace.events, he, ← hf]
    simp
  · intro hlt
    have hfront := List.prefix_of_prefix_length_le (schedule_prefix_of_le pipeline count) h
      (Nat.le_of_lt hlt)
    have hk : (pipeline.schedule count).length < trace.entries.length := by
      rwa [Trace.events, List.length_map] at hlt
    refine ⟨trace.entries.take (pipeline.schedule count).length,
      trace.entries[(pipeline.schedule count).length],
      trace.entries.drop ((pipeline.schedule count).length + 1), ?_, ?_⟩
    · rw [← List.drop_eq_getElem_cons, List.take_append_drop]
    · rw [List.map_take]
      exact (List.prefix_iff_eq_take.mp hfront).symm

end

/-- The last context has the family if and only if the assembly was finished. -/
theorem Progress.artifacts_last {start last : Context} {finished : List (String × Context)}
    (h : Progress start finished) (hs : start.artifacts = none)
    (hl : (start :: finished.map (·.2)).getLast? = some last) :
    last.artifacts = if 1 < finished.length then some (assemble start.schema) else none := by
  cases h with
  | begun =>
    obtain rfl := Option.some.inj hl
    exact hs
  | @linted left lints =>
    obtain ⟨added, rfl⟩ := lints
    obtain rfl := Option.some.inj hl
    exact hs
  | @assembled left family later lints assembly more =>
    obtain ⟨added, rfl⟩ := lints
    obtain ⟨added', rfl⟩ := assembly
    rw [if_pos (by simp)]
    rw [List.map_cons, List.map_cons, List.getLast?_cons_cons, List.getLast?_cons_cons] at hl
    rcases List.mem_cons.mp (List.mem_of_getLast? hl) with rfl | hm
    · rfl
    · obtain ⟨entry, hentry, rfl⟩ := List.mem_map.mp hm
      exact (more entry hentry).family rfl

namespace Course
variable {pipeline : Pipeline (StateM ω)} {start : Context} {world : ω}
  {finished : List (String × Context)} {trace : Trace ω}
  (h : Course pipeline.plugins pipeline.phases start world finished trace)
include h

theorem canonical : trace.events <+: pipeline.schedule pipeline.phases.length := by
  rw [Pipeline.schedule, List.take_length]
  exact h.events_prefix

theorem linted : ⟨Finding.phase, .run⟩ ∈ trace.events ∨ ∃ front entry place failure,
    trace.entries = front ++ [entry] ∧ entry.event = ⟨Finding.phase, .before place⟩ ∧
      entry.outcome = .error failure := by
  refine linted_or_failed h.canonical h.chain fun last ha => ?_
  have hpos := h.finished_pos ha (List.cons_ne_nil _ _)
  obtain ⟨done, _, hdone, _⟩ : ∃ done left, trace.Finishes (pipeline.schedule 1) done ∧ _ :=
    h.finishes hpos
  have hm : ⟨Finding.phase, .run⟩ ∈ done.map (·.event) := by
    rw [hdone.events, schedule_one]
    simp [roundEvents]
  exact (hdone.front.map _).subset hm

/-- A run that does not fail has passed the lints if and only if it has finished more than them. -/
theorem passes_one_iff {last : Context} (ha : trace.answer = .ok last) :
    trace.Passes (pipeline.schedule 1) ↔ 1 < finished.length := by
  have hevents : trace.events = pipeline.schedule finished.length := (h.ended ha).1
  have hpos := h.finished_pos ha (List.cons_ne_nil _ _)
  rw [passes_iff h.canonical, hevents]
  rcases Nat.lt_or_eq_of_le (Nat.succ_le_of_lt hpos) with hlt | heq
  · exact iff_of_true (length_schedule_lt hlt h.length_finished) hlt
  · rw [← heq]
    exact iff_of_false (Nat.lt_irrefl _) (Nat.lt_irrefl _)

theorem family_iff (hs : pipeline.Supplements) (hn : start.artifacts = none) {last : Context}
    (ha : trace.answer = .ok last) :
    (last.artifacts = some (assemble start.schema) ↔ trace.Passes (pipeline.schedule 1)) ∧
      (last.artifacts = none ↔ ¬trace.Passes (pipeline.schedule 1)) := by
  rw [h.passes_one_iff ha, (hs.progress h).artifacts_last hn (h.ended ha).2.2]
  split
  · next hlt => simp [hlt]
  · next hle => simp [hle]

/-- What finished the lints without an error passes them: a run that does not fail ends there only
with an error. -/
theorem passes_of_finishes {done : List TraceEntry}
    (hdone : trace.Finishes (pipeline.schedule 1) done)
    (hclean : ∀ last, trace.answer = .ok last → done = trace.entries → last.hasErrors = false) :
    trace.Passes (pipeline.schedule 1) := by
  rw [passes_iff h.canonical, Trace.events, List.length_map, ← hdone.events, List.length_map]
  refine Nat.lt_of_le_of_ne hdone.front.length_le fun hlength => ?_
  have hall := hdone.front.eq_of_length hlength
  rcases ha : trace.answer with failure | last
  · obtain ⟨front, entry, hentries, hfailed⟩ := (ha ▸ h.chain).fails
    obtain ⟨next, hnext⟩ := hdone.succeeded entry (by simp [hall, hentries])
    exact absurd (hnext.symm.trans hfailed) (by simp)
  · have hnot : ¬trace.Passes (pipeline.schedule 1) := by
      rw [passes_iff h.canonical, Trace.events, List.length_map, ← hdone.events, List.length_map,
        hlength]
      exact Nat.lt_irrefl _
    rw [h.passes_one_iff ha] at hnot
    obtain ⟨_, hend, _⟩ := h.ended ha
    rcases hend with herror | hlast
    · exact absurd (herror.symm.trans (hclean last ha hall)) (by decide)
    · exact hnot (hlast ▸ one_lt_length_phases pipeline)

end Course

/-- Whatever hooks, phases and lints a pipeline has, its runs follow the schedule. -/
theorem run_follows_schedule {pipeline : Pipeline (StateM ω)} (h : pipeline.Supplements)
    (schema : Schema) (seed : List Diagnostic) (world : ω) :
    (pipeline.trace { schema, diagnostics := seed } world).Follows pipeline schema seed world := by
  obtain ⟨finished, trace, hcourse, htrace⟩ := course_traceOf pipeline.plugins pipeline.phases
    { schema, diagnostics := seed } [] world
  rw [Pipeline.trace, htrace, List.nil_append]
  have hchain := hcourse.chain
  have hgrow := hcourse.entries_grow fun phase hp entry he => h.entry_grows hp he
  have hgiven : ∀ front entry rest, trace.entries = front ++ entry :: rest →
      entry.context.diagnostics = seed ++ front.flatMap TraceEntry.added := by
    intro front entry rest he
    have hfront := (he ▸ hchain).cut.1
    exact (hfront.grows fun entry hm => hgrow entry (by simp [he, hm])).2
  have hfinal : ∀ last, trace.answer = .ok last →
      last.diagnostics = seed ++ trace.entries.flatMap TraceEntry.added :=
    fun last ha => ((ha ▸ hchain).grows hgrow).2
  have hclean : ∀ front entry rest count, trace.entries = front ++ entry :: rest → 0 < count →
      front.map (·.event) = pipeline.schedule count →
        (seed ++ front.flatMap TraceEntry.added).any Diagnostic.isError = false := by
    intro front entry rest count he hc hf
    rw [← hgiven front entry rest he]
    exact hcourse.clean_at he hc hf
  refine
    { run := hcourse.run_eq
      canonical := hcourse.canonical
      given := hgiven
      failing := fun front entry rest failure he => (he ▸ hchain).rest_of_failed
      failed := fun failure ha => (ha ▸ hchain).fails
      ended := ?ended
      clean := hclean
      diagnostics := hfinal
      linted := hcourse.linted
      assembled := fun last ha => hcourse.family_iff h rfl ha
      assembling := ?assembling }
  case ended =>
    intro last ha
    obtain ⟨hevents, hend, _⟩ := hcourse.ended ha
    exact ⟨finished.length, hcourse.finished_pos ha (List.cons_ne_nil _ _),
      hcourse.length_finished, hevents, hend⟩
  case assembling =>
    constructor
    · rintro ⟨front, entry, rest, he, hf⟩
      have hfront := (he ▸ hchain).cut.1
      exact ⟨front, ⟨⟨entry :: rest, he.symm⟩, hf, hfront.succeeds⟩,
        hclean front entry rest 1 he Nat.one_pos hf⟩
    · rintro ⟨done, hdone, herrors⟩
      refine hcourse.passes_of_finishes hdone fun last ha hall => ?_
      rw [Context.hasErrors, hfinal last ha, ← hall, herrors]

end

/-- In a world that counts phases: a first plugin that closes behind the last phase, a second one
that counts and remarks, the assembly once more, and a last phase that objects to every
component. -/
def gatedPipeline : Pipeline (StateM Nat) where
  extraPhases :=
    [.assemble,
      { name := "audit"
        description := "Object"
        run := fun context => pure (context.report [⟨.error, "audit", "objection", none⟩]) }]
  plugins :=
    [{ name := "gate"
       before := fun _ context => pure context
       after := fun phase context =>
         if phase = "audit" then throw (.stopped "gate closed") else pure context },
      { name := "counter"
        before := fun phase context => do
          modify (· + 1)
          pure (context.report [⟨.info, phase, "begins", none⟩])
        after := fun _ context => pure context }]

theorem gatedPipeline_supplements : gatedPipeline.Supplements where
  phases := by
    intro phase hp
    rcases List.mem_cons.mp hp with rfl | hp
    · exact .inr rfl
    · obtain rfl := List.mem_singleton.mp hp
      exact .inl (annotates_pure fun _ => ⟨_, rfl⟩)
  before := by
    intro plugin hp phase before world after next hrun
    rcases List.mem_cons.mp hp with rfl | hp
    · exact annotates_pure .refl _ _ _ _ hrun
    · obtain rfl := List.mem_singleton.mp hp
      obtain ⟨he, _⟩ := Prod.mk.inj hrun
      exact ⟨_, (Except.ok.inj he).symm⟩
  after := by
    intro plugin hp phase before world after next hrun
    rcases List.mem_cons.mp hp with rfl | hp
    · by_cases hclosed : phase = "audit"
      · dsimp only at hrun
        rw [if_pos hclosed] at hrun
        exact absurd (Prod.mk.inj hrun).1 (by rintro ⟨⟩)
      · dsimp only at hrun
        rw [if_neg hclosed] at hrun
        exact annotates_pure .refl _ _ _ _ hrun
    · obtain rfl := List.mem_singleton.mp hp
      exact annotates_pure .refl _ _ _ _ hrun

def contentSchema : Schema := ⟨"Chip", { color := ["content"] }⟩

/-- An error from before a run. -/
def unreadable : Diagnostic := ⟨.error, "scan", "unreadable", none⟩

/-- A run that the gate stops one event before its end, and one that an error from before ends after
the lints. -/
theorem gated_follows_schedule :
    gatedPipeline.Supplements ∧
      (gatedPipeline.trace { schema := contentSchema } 0).events =
        (gatedPipeline.schedule 4).dropLast ∧
      (gatedPipeline.trace { schema := contentSchema } 0).Follows gatedPipeline contentSchema [] 0 ∧
      (gatedPipeline.trace { schema := contentSchema, diagnostics := [unreadable] } 0).events =
        roundEvents 2 "validate" ∧
      (gatedPipeline.trace { schema := contentSchema, diagnostics := [unreadable] } 0).Follows
        gatedPipeline contentSchema [unreadable] 0 := by
  have h := gatedPipeline_supplements
  refine ⟨h, ?_, run_follows_schedule h _ _ _, ?_, run_follows_schedule h _ _ _⟩
  · decide +kernel
  · decide +kernel

end StyleFamily
